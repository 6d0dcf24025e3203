import ResponseShapes.Pass.Project
import ResponseShapes.Proofs.Pass.Sources

/-! # Settings of a project

Which settings a project has and which directory is searched for sources is decided by a few places alone
(`Pass.Does.projectSettings`, `Pass.Does.searchRoot`). Writing declarations into the output directory of the settings
changes none of the settings (`projectSettings_regenerates`). -/

namespace ResponseShapes

variable {s : Settings} {d d' : Disk} {path : String} {root : Path}

/-! ### Settings of a mapping -/

theorem Except.exists_of_bind {ε α β : Type} {x : Except ε α} {f : α → Except ε β} {b : β} (h : x >>= f = .ok b) :
    ∃ a, x = .ok a ∧ f a = .ok b := by
  cases x with
  | error e => cases h
  | ok a => exact ⟨a, rfl, h⟩

namespace Settings

/-- The settings are read of the entries, each part of them on its own. -/
structure ReadOf (root : Path) (m : ValueMap) (s : Settings) : Prop where
  sourceDir : textOr "src_dir" m (standard root).sourceDir = .ok s.sourceDir
  outputDir : textOr "output_dir" m (standard root).outputDir = .ok s.outputDir
  servicePattern : textOr "service_pattern" m (standard root).servicePattern = .ok s.servicePattern
  controllerPattern : textOr "controller_pattern" m (standard root).controllerPattern = .ok s.controllerPattern
  clean : s.clean = ((Yaml.Value.get? "clean" m).bind truth?).getD (standard root).clean
  excludePaths : textsAt "exclude_paths" m = .ok s.excludePaths
  conventions : readConventions (section? "conventions" m) (standard root).conventions = .ok s.conventions
  documentation : readDocumentation (section? "documentation" m) (standard root).documentation = .ok s.documentation
  lockTimeout : readTimeout (section? "build" m) (standard root).lockTimeout = .ok s.lockTimeout
  root : s.root = root

theorem readOf_of_ofMapping {m : ValueMap} (h : ofMapping root m = .ok s) : ReadOf root m s := by
  unfold ofMapping at h
  obtain ⟨sourceDir, hsource, h⟩ := Except.exists_of_bind h
  obtain ⟨outputDir, houtput, h⟩ := Except.exists_of_bind h
  obtain ⟨servicePattern, hservice, h⟩ := Except.exists_of_bind h
  obtain ⟨controllerPattern, hcontroller, h⟩ := Except.exists_of_bind h
  obtain ⟨excludePaths, hexclude, h⟩ := Except.exists_of_bind h
  obtain ⟨conventions, hconventions, h⟩ := Except.exists_of_bind h
  obtain ⟨documentation, hdocumentation, h⟩ := Except.exists_of_bind h
  obtain ⟨lockTimeout, htimeout, h⟩ := Except.exists_of_bind h
  obtain rfl := Except.ok.inj h
  exact ⟨hsource, houtput, hservice, hcontroller, rfl, hexclude, hconventions, hdocumentation, htimeout, rfl⟩

theorem ofText_root {text : List Char} (h : ofText root text = .ok s) : s.root = root := by
  unfold ofText at h
  split at h
  · exact (readOf_of_ofMapping h).root
  · split at h
    · unfold ofValue at h
      split at h
      · exact (readOf_of_ofMapping h).root
      · exact (readOf_of_ofMapping h).root
      · cases h
    · cases h

end Settings

/-! ### Reading settings -/

/-- The settings that a file gives; they are the standard ones if it is missing. -/
def settingsIn (d : Disk) (file : Path) : Except Interruption Settings :=
  if d.has file then
    match d.readText file with
    | .ok cs =>
      match Settings.ofText file.parent cs with
      | .ok s => .ok s
      | .error e => .error (.settings e)
    | .error e => .error (Interruption.ofText e)
  else .ok (Settings.standard file.parent)

theorem settingsIn_root {file : Path} (h : settingsIn d file = .ok s) : s.root = file.parent := by
  unfold settingsIn at h
  split at h
  · split at h
    · split at h
      · rename_i hs
        exact Except.ok.inj h ▸ Settings.ofText_root hs
      · cases h
    · cases h
  · exact Except.ok.inj h ▸ rfl

theorem settingsPath_resolve (h : d.stands (d.resolve root) = .directory) :
    settingsPath d (d.resolve root) = (d.resolve root).child settingsFile := by
  have habs : ((d.resolve root).child settingsFile).isAbsolute = true := rfl
  have hparts : Path.withoutDots ((d.resolve root).parts ++ [settingsFile]) = (d.resolve root).parts ++ [settingsFile] := by
    refine Path.withoutDots_of_no_dots ?_
    rw [List.mem_append, List.mem_singleton, not_or]
    exact ⟨d.dots_notMem_resolve root, by decide⟩
  unfold settingsPath
  rw [if_pos (Disk.hasDirectory_iff.mpr h), Disk.resolve, Path.resolve, Disk.join_of_isAbsolute _ habs]
  rw [Path.child, hparts]
  rfl

/-- The settings that a path stands for are those of its file. -/
theorem Pass.Does.loadSettingsAt (p : Path) (d : Disk) : (loadSettings p).Does d (settingsIn d (settingsPath d p)) d := by
  refine disk_bind ?_
  unfold settingsIn
  dsimp only
  split
  · cases hread : d.readText (settingsPath d p) with
    | error e => exact (readText_error hread).bind_error
    | ok cs =>
      refine (readText_ok hread).bind ?_
      dsimp only
      cases Settings.ofText (settingsPath d p).parent cs with
      | ok s => exact pure s d
      | error e => exact interrupt _ d
  · exact pure _ d

theorem Pass.Does.loadSettings (h : d.stands (d.resolve root) = .directory) :
    (loadSettings (d.resolve root)).Does d (settingsIn d ((d.resolve root).child settingsFile)) d :=
  settingsPath_resolve h ▸ loadSettingsAt (d.resolve root) d

theorem Pass.Does.projectSettings (h : d.stands (d.resolve (Path.ofString path)) = .directory) :
    (projectSettings path).Does d (settingsIn d ((d.resolve (Path.ofString path)).child settingsFile)) d := by
  have hentry := d.entry_cases (d.resolve (Path.ofString path))
  rw [h] at hentry
  obtain ⟨time, children, hentry, -⟩ := hentry
  refine disk_bind ?_
  dsimp only
  rw [hentry]
  exact loadSettings h

/-- Reading the settings of a project changes nothing, and a project that has settings is a directory. -/
theorem projectSettings_does (d : Disk) (path : String) : ∃ r, (projectSettings path).Does d r d ∧
    ∀ s, r = .ok s → d.stands (d.resolve (Path.ofString path)) = .directory := by
  have hentry := d.entry_cases (d.resolve (Path.ofString path))
  split at hentry <;> rename_i hstands
  · obtain ⟨e, hentry⟩ := hentry
    refine ⟨.error (.projectMissing path), .disk_bind ?_, fun _ h => nomatch h⟩
    dsimp only
    rw [hentry]
    exact .interrupt _ d
  · exact ⟨_, .projectSettings hstands, fun _ _ => hstands⟩
  · obtain ⟨time, hentry⟩ := hentry
    refine ⟨.error (.projectNotDirectory path), .disk_bind ?_, fun _ h => nomatch h⟩
    dsimp only
    rw [hentry]
    exact .interrupt _ d

theorem stands_of_projectSettings (h : (projectSettings path).Does d (.ok s) d') :
    d.stands (d.resolve (Path.ofString path)) = .directory := by
  obtain ⟨r, hdoes, hdir⟩ := projectSettings_does d path
  exact hdir s (hdoes.unique h).1

theorem projectSettings_of_run {σ : PassState} (h : ((projectSettings path).run σ).1 = .ok s) :
    (projectSettings path).Does σ.disk (.ok s) σ.disk := by
  obtain ⟨r, hdoes, -⟩ := projectSettings_does σ.disk path
  obtain ⟨rows, hrun⟩ := hdoes σ.rows σ.progress
  obtain rfl : r = .ok s := (congrArg Prod.fst hrun).symm.trans h
  exact hdoes

/-- The settings of a project are about the directory that its path leads to. -/
theorem projectSettings_root (h : (projectSettings path).Does d (.ok s) d) :
    s.root.isAbsolute = true ∧ d.stands s.root = .directory := by
  have hdir := stands_of_projectSettings h
  have hroot := settingsIn_root (h.unique (.projectSettings hdir)).1.symm
  rw [Path.parent_child] at hroot
  rw [hroot]
  exact ⟨rfl, hdir⟩

/-! ### The directory that is searched -/

/-- The directory that is searched for the sources of a project. -/
def searchedRoot (s : Settings) (d : Disk) : Path :=
  if d.hasDirectory s.sourceRoot then s.sourceRoot else s.root

theorem Pass.Does.searchRoot (s : Settings) (d : Disk) : (searchRoot s).Does d (.ok (searchedRoot s d)) d := by
  refine disk_bind ?_
  unfold searchedRoot
  split
  · exact pure _ d
  · exact (say _ _ _ d).bind (pure _ d)

theorem Settings.isAbsolute_sourceRoot (h : s.root.isAbsolute) : s.sourceRoot.isAbsolute = true := by
  unfold sourceRoot Path.join
  split
  · assumption
  · exact h

theorem Settings.isAbsolute_outputRoot (h : s.root.isAbsolute) : s.outputRoot.isAbsolute = true := by
  unfold outputRoot Path.join
  split
  · assumption
  · exact h

theorem Settings.isAbsolute_declarationsDir (h : s.root.isAbsolute) : s.declarationsDir.isAbsolute = true :=
  s.isAbsolute_outputRoot h

/-- The directory that is searched is there. -/
theorem standing_searchedRoot (habs : s.root.isAbsolute) (h : d.stands s.root = .directory) :
    d.tree.standing (d.resolve (searchedRoot s d)).parts = .directory := by
  unfold searchedRoot
  split
  · rename_i hsource
    exact (Disk.stands_resolve (s.isAbsolute_sourceRoot habs) (Disk.hasDirectory_iff.mp hsource)).2
  · exact (Disk.stands_resolve habs h).2

/-! ### Settings while declarations are written -/

/-- The directories on the way to the standard output directory are no settings files. -/
theorem not_onTheWay_settingsFile (hdots : ".." ∉ root.parts) :
    ¬(Settings.standard root).declarationsDir.OnTheWay (root.parts ++ [settingsFile]) := by
  rintro ⟨k, hk⟩
  have hparts : (Settings.standard root).declarationsDir.parts = root.parts ++ ["src", "generated", "responses"] := by
    simp [Settings.declarationsDir, Settings.outputRoot, Settings.standard, Path.join, Path.child,
      show Path.ofString "src/generated" = { root := "", parts := ["src", "generated"] } by decide, Path.isAbsolute]
  rw [hparts, Path.withoutDots_of_no_dots fun h => ?_] at hk
  · have hlength := congrArg List.length hk
    have hget := congrArg (fun l => l[root.parts.length]?) hk
    simp only [List.length_append, List.length_take] at hlength
    rw [List.getElem?_append_right (Nat.le_refl _), List.getElem?_take_of_lt (by simp at hlength; omega),
      List.getElem?_append_right (Nat.le_refl _), Nat.sub_self] at hget
    exact absurd (Option.some.inj hget) (by decide)
  · have hmem := List.mem_of_mem_take h
    rw [List.mem_append] at hmem
    exact hmem.elim hdots (by decide)

/-- Writing files of other names, and directories on the way to the declarations, leaves the settings as they are. -/
theorem projectSettings_regenerated {modules : List String → Prop} (h : (projectSettings path).Does d (.ok s) d)
    (hregen : Disk.Regenerated modules s.declarationsDir.OnTheWay d d')
    (hmodules : ∀ around, ¬modules (around ++ [settingsFile])) : (projectSettings path).Does d' (.ok s) d' := by
  have hdir := stands_of_projectSettings h
  have hsettings := (h.unique (.projectSettings hdir)).1
  have hresolve : d'.resolve (Path.ofString path) = d.resolve (Path.ofString path) := by
    rw [Disk.resolve, Disk.resolve, hregen.here]
  have hdoes := Pass.Does.projectSettings (by
    rw [hresolve]
    exact hregen.stands_directory hdir)
  rw [hresolve] at hdoes
  suffices hsame : settingsIn d' ((d.resolve (Path.ofString path)).child settingsFile) =
      settingsIn d ((d.resolve (Path.ofString path)).child settingsFile) by
    rw [hsame, ← hsettings] at hdoes
    exact hdoes
  generalize hroot : d.resolve (Path.ofString path) = root at hdir hsettings ⊢
  have habs : root.isAbsolute = true := by rw [← hroot]; rfl
  have hdots : ".." ∉ root.parts := by rw [← hroot]; exact d.dots_notMem_resolve _
  obtain ⟨hplace, hstanding⟩ := Disk.place_of_no_dots habs hdots (d := d) (by rw [hdir]; exact Standing.noConfusion)
  rw [hdir] at hstanding
  have hfile := Disk.place_child_of_directory hplace hstanding (show settingsFile ≠ ".." by decide)
  have hother := hmodules root.parts
  have hstands := Disk.stands_of_place hfile
  have hstands' := Disk.stands_of_place (hregen.place_eq hfile)
  cases hold : d.stands (root.child settingsFile) with
  | directory =>
    -- A directory in the place of the settings file cannot be read.
    unfold settingsIn at hsettings
    rw [if_pos (Disk.has_of_directory hold), Disk.readText_of_directory hold] at hsettings
    cases hsettings
  | file content =>
    have hnew : d'.stands (root.child settingsFile) = .file content := by
      rw [hstands', hregen.others _ hother, ← hstands, hold]
    unfold settingsIn
    rw [Disk.readText_of_file hold, Disk.readText_of_file hnew, if_pos (Disk.has_of_file hold),
      if_pos (Disk.has_of_file hnew)]
  | nothing =>
    have hmissing : ¬d.has (root.child settingsFile) = true := fun hhas => Disk.has_iff.mp hhas hold
    unfold settingsIn at hsettings ⊢
    rw [if_neg hmissing, Path.parent_child] at hsettings ⊢
    obtain rfl := Except.ok.inj hsettings
    have hmissing' : ¬d'.has (root.child settingsFile) = true := by
      rw [Disk.has_iff, not_not, hstands']
      rw [hstands] at hold
      cases hnew : d'.tree.standing (root.parts ++ [settingsFile]) with
      | nothing => rfl
      | file content =>
        rw [hregen.others _ hother, hold] at hnew
        cases hnew
      | directory =>
        obtain hdir' | hmade := hregen.new _ hnew
        · rw [hold] at hdir'
          cases hdir'
        · exact absurd hmade (not_onTheWay_settingsFile hdots)
    rw [if_neg hmissing']

/-- Writing declarations into the output directory of a project leaves the settings as they are. -/
theorem projectSettings_regenerates (h : (projectSettings path).Does d (.ok s) d)
    (hregen : Disk.Regenerates s.declarationsDir d d') : (projectSettings path).Does d' (.ok s) d' :=
  projectSettings_regenerated h hregen fun around hmodule => by
    obtain ⟨name, hname, heq⟩ := hmodule
    obtain rfl : settingsFile = name := by simpa using congrArg List.getLast? heq
    exact absurd hname (by decide)

end ResponseShapes
