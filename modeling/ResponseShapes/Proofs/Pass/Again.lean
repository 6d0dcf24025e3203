import ResponseShapes.Proofs.Pass.Scan
import ResponseShapes.Proofs.Pass.Settings

/-! # Generating twice

A second generation of the declarations of a project finds the settings, the sources and the modules of the first one,
comes to the same and leaves every file as it is, unless the first one itself made the source directory, so that the
second one searches elsewhere, or a directory in the place of the missing ignore file (`generate_again`). -/

namespace ResponseShapes

variable {s : Settings} {d d₁ : Disk} {path : String}

/-- Generating the declarations of a project scans the units below the searched directory. -/
theorem generate_run [Recovery] {σ : PassState} {r : Except Interruption (List DeclaredUnit)}
    (hs : (projectSettings path).Does σ.disk (.ok s) σ.disk)
    (hscan : (scanUnits s (searchedRoot s σ.disk) s.servicePattern s.declarationsDir).Does σ.disk r d₁) :
    ((generate path).run σ).1 = r.map List.length ∧ ((generate path).run σ).2.disk = d₁ := by
  have hgenerate : (generate path).Reaches σ.disk σ.progress _ d₁ _ :=
    (hs.reaches _).bind (((Pass.Does.searchRoot s σ.disk).reaches _).bind (.generateDeclarations hscan σ.progress))
  exact ⟨hgenerate.run.1, hgenerate.run.2.1⟩

/-! ### Scanning a project twice -/

section Scanning

variable {root top output : Path} {pattern : String}

theorem scanUnits_unlisted [Recovery] {i : Interruption}
    (hlist : (listSources root pattern s.excludePaths).Does d (.error i) d) :
    (scanUnits s root pattern output).Does d (.error i) d :=
  hlist.bind_error

/-- Scanning no sources finds no units. -/
theorem scanUnits_nil [Recovery] (habs : output.isAbsolute)
    (hlist : (listSources root pattern s.excludePaths).Does d (.ok []) d) :
    ∃ d', (scanUnits s root pattern output).Does d (.ok []) d' := by
  have hfold : (List.foldlM (addUnit s output) { seen := [], declared := [] } []).Does d
      (.ok { seen := [], declared := [] }) d := .pure _ d
  by_cases hdir : d.stands output = .directory
  · obtain ⟨d', hclean, -⟩ := Pass.Does.clean s habs hdir (moduleNames [])
    exact ⟨d', .scanUnits_ok hlist hfold hclean⟩
  · refine ⟨d, .scanUnits_ok hlist hfold ?_⟩
    split
    · exact .removeStaleModules_closed hdir _
    · exact .pure () d

/-- Scanning the sources below a directory twice, if nothing takes the place of a missing ignore file. -/
theorem scanUnits_twice [Recovery] (habs : output.isAbsolute) (hd : d.tree.Proper)
    (hdir : d.tree.standing (d.resolve root).parts = .directory)
    (hglob : DescribesNoModule output (d.resolve root) pattern) :
    ∃ r d₁, (scanUnits s root pattern output).Does d r d₁ ∧ Disk.Regenerates output d d₁ ∧ ∀ clock,
      (d₁.later clock).has ((d.resolve root).child ignoreFile) = d.has ((d.resolve root).child ignoreFile) →
        ∃ d₂, (scanUnits s root pattern output).Does (d₁.later clock) r d₂ ∧
          ∀ place, d₂.tree.standing place = d₁.tree.standing place := by
  have hlist := Pass.Does.listSources hdir pattern s.excludePaths
  have hlist₁ := fun {d₁} (hregen : Disk.Regenerates output d d₁) =>
    listSources_regenerates s.excludePaths hregen hd hdir hglob (not_holdsModule_ignoreFile output _)
  cases hrules : rulesAt d (d.resolve root) s.excludePaths with
  | error i =>
    rw [hrules] at hlist hlist₁
    refine ⟨.error i, d, scanUnits_unlisted hlist, .refl _ _ d, fun clock hignore => ⟨d.later clock, ?_, fun _ => rfl⟩⟩
    have hlater : Disk.Regenerates output d (d.later clock) := Disk.Regenerated.later (.refl _ _ d) clock
    exact scanUnits_unlisted (hlist₁ hlater hignore)
  | ok rules =>
    rw [hrules] at hlist hlist₁
    obtain ⟨r, d₁, hscan, hregen, hagain⟩ := scanUnits_again habs hlist fun p hp =>
      steady_of_mem_listed (d.isAbsolute_resolve root) hd hglob hp
    exact ⟨r, d₁, hscan, hregen, fun clock hignore =>
      hagain clock (hlist₁ (Disk.Regenerated.later hregen clock) hignore)⟩

/-- In a directory that was made while modules were written there are no sources. -/
theorem listedSources_of_made (hd : d₁.tree.Proper) (hregen : Disk.Regenerates output d d₁)
    (hdir : d.tree.standing top.parts ≠ .directory) (hdir₁ : d₁.tree.standing top.parts = .directory)
    (hglob : DescribesNoModule output top pattern) (rules : List IgnoreRule) :
    listedSources d₁ top pattern rules = [] := by
  refine List.eq_nil_iff_forall_not_mem.mpr fun p hp => ?_
  unfold listedSources at hp
  split at hp
  case h_2 => cases hp
  rename_i t hfind
  rw [Path.sort, (List.mergeSort_perm _ _).mem_iff, List.mem_map] at hp
  obtain ⟨place, hplace, -⟩ := hp
  obtain ⟨hwalk, hdescribes⟩ := List.mem_filter.mp hplace
  obtain ⟨rel, content, hrel, hfile⟩ := Tree.mem_walk t [] (hd.find? hfind).1 hwalk
  obtain rfl : place = rel := hrel
  have hmodule : ¬output.HoldsModule (top.parts ++ place) := fun h => by
    rw [hglob place h] at hdescribes
    cases hdescribes
  -- The file is no module, so it was there before, and so was the directory.
  have hfile₁ : d₁.tree.standing (top.parts ++ place) = .file content := by rw [Tree.standing_append hfind, hfile]
  have hfile₀ := (hregen.others _ hmodule content).mp hfile₁
  cases place with
  | nil =>
    rw [List.append_nil, hdir₁] at hfile₁
    cases hfile₁
  | cons name place => exact hdir (Tree.standing_of_append_cons (by rw [hfile₀]; exact Standing.noConfusion))

/-- Scanning a directory that was made while modules were written finds no units. -/
theorem scanUnits_made [Recovery] (habs : output.isAbsolute) (hroot : root.isAbsolute) (hdots : ".." ∉ root.parts)
    (hd : d₁.tree.Proper) (hregen : Disk.Regenerates output d d₁) (hdir : d.stands root ≠ .directory)
    (hdir₁ : d₁.stands root = .directory) (hglob : DescribesNoModule output (d.resolve root) pattern) :
    ∃ r d₂, (scanUnits s root pattern output).Does d₁ r d₂ ∧ ∀ n, 0 < n → r.map List.length ≠ .ok n := by
  have hresolve : d₁.resolve root = d.resolve root := by rw [Disk.resolve, Disk.resolve, hregen.here]
  have hparts : (d.resolve root).parts = root.parts := (Disk.resolve_parts hroot).trans (Path.withoutDots_of_no_dots hdots)
  have hold : d.tree.standing (d.resolve root).parts ≠ .directory := fun hold => hdir <|
    (Disk.stands_of_standing hroot hdots (by rw [← hparts, hold]; exact Standing.noConfusion)).2.trans (hparts ▸ hold)
  have hnew := (Disk.stands_resolve hroot hdir₁).2
  have hlist := Pass.Does.listSources hnew pattern s.excludePaths
  rw [hresolve] at hnew hlist
  cases hrules : rulesAt d₁ (d.resolve root) s.excludePaths with
  | error i =>
    rw [hrules] at hlist
    exact ⟨.error i, d₁, scanUnits_unlisted hlist, fun _ _ h => by cases h⟩
  | ok rules =>
    rw [hrules, Except.map, listedSources_of_made hd hregen hold hnew hglob] at hlist
    obtain ⟨d₂, hscan⟩ := scanUnits_nil (s := s) habs hlist
    exact ⟨.ok [], d₂, hscan, fun n hn h => absurd (Except.ok.inj h) (Nat.ne_of_lt hn)⟩

/-- Nothing is scanned if a directory took the place of a missing ignore file. -/
theorem scanUnits_unruled [Recovery] (pattern : String) (hregen : Disk.Regenerates output d d₁)
    (hdir : d.tree.standing (d.resolve root).parts = .directory)
    (hignore : d₁.has ((d.resolve root).child ignoreFile) ≠ d.has ((d.resolve root).child ignoreFile)) :
    ∃ i, (scanUnits s root pattern output).Does d₁ (.error i) d₁ := by
  have hresolve : d₁.resolve root = d.resolve root := by rw [Disk.resolve, Disk.resolve, hregen.here]
  have hdir₁ : d₁.tree.standing (d₁.resolve root).parts = .directory := by
    rw [hresolve]
    exact hregen.directories _ hdir
  have hlist := Pass.Does.listSources hdir₁ pattern s.excludePaths
  rw [hresolve, rulesAt_of_directory (stands_ignoreFile_of_made hregen (not_holdsModule_ignoreFile _ _) hdir hignore).1] at hlist
  exact ⟨_, scanUnits_unlisted hlist⟩

end Scanning

/-! ### Generating twice -/

/-- Generating searches the same directory as before, by the same rules. -/
def SearchKept (s : Settings) (d d₁ : Disk) : Prop :=
  d₁.hasDirectory s.sourceRoot = d.hasDirectory s.sourceRoot ∧
    d₁.has ((d.resolve (searchedRoot s d)).child ignoreFile) = d.has ((d.resolve (searchedRoot s d)).child ignoreFile)

/-- The search is kept if the source directory is there and writing modules makes no directory in the place of its ignore
    file. -/
theorem SearchKept.of_source (habs : s.root.isAbsolute) (hregen : Disk.Regenerates s.declarationsDir d d₁)
    (hsource : d.hasDirectory s.sourceRoot = true)
    (hapart : ¬s.declarationsDir.OnTheWay ((d.resolve s.sourceRoot).parts ++ [ignoreFile])) : SearchKept s d d₁ := by
  have hdir := Disk.hasDirectory_iff.mp hsource
  refine ⟨(Disk.hasDirectory_iff.mpr (hregen.stands_directory hdir)).trans hsource.symm, ?_⟩
  rw [searchedRoot, if_pos hsource]
  by_contra hignore
  obtain ⟨-, hnew, hold⟩ := stands_ignoreFile_of_made hregen (not_holdsModule_ignoreFile _ _)
    (Disk.stands_resolve (s.isAbsolute_sourceRoot habs) hdir).2 hignore
  exact (hregen.new _ hnew).elim hold hapart

/-- Scanning a project twice finds the same units and writes the same modules as long as the search is kept. -/
theorem scanUnits_searched [Recovery] (hd : d.tree.Proper) (hs : (projectSettings path).Does d (.ok s) d)
    (hglob : ∀ root ∈ [s.sourceRoot, s.root], DescribesNoModule s.declarationsDir (d.resolve root) s.servicePattern) :
    ∃ r d₁, (scanUnits s (searchedRoot s d) s.servicePattern s.declarationsDir).Does d r d₁ ∧
      Disk.Regenerates s.declarationsDir d d₁ ∧ ∀ clock,
        (SearchKept s d (d₁.later clock) →
          ∃ d₂, (scanUnits s (searchedRoot s (d₁.later clock)) s.servicePattern s.declarationsDir).Does
              (d₁.later clock) r d₂ ∧ ∀ place, d₂.tree.standing place = d₁.tree.standing place) ∧
        (¬SearchKept s d (d₁.later clock) → ".." ∉ s.sourceRoot.parts →
          ∃ r₂ d₂, (scanUnits s (searchedRoot s (d₁.later clock)) s.servicePattern s.declarationsDir).Does
              (d₁.later clock) r₂ d₂ ∧ ∀ n, 0 < n → r₂.map List.length ≠ .ok n) := by
  obtain ⟨habs, hroot⟩ := projectSettings_root hs
  have houtput := s.isAbsolute_declarationsDir habs
  have hdir := standing_searchedRoot habs hroot
  have hsearched : searchedRoot s d ∈ [s.sourceRoot, s.root] := by
    unfold searchedRoot
    split <;> simp
  obtain ⟨r, d₁, hscan, hregen, hagain⟩ := scanUnits_twice (s := s) houtput hd hdir (hglob _ hsearched)
  refine ⟨r, d₁, hscan, hregen, fun clock => ⟨fun hkept => ?_, fun hlost hdots => ?_⟩⟩
  · obtain ⟨d₂, hscan₂, hstay⟩ := hagain clock hkept.2
    have hsame : searchedRoot s (d₁.later clock) = searchedRoot s d := by rw [searchedRoot, hkept.1, searchedRoot]
    exact ⟨d₂, hsame.symm ▸ hscan₂, hstay⟩
  · have hlater : Disk.Regenerates s.declarationsDir d (d₁.later clock) := Disk.Regenerated.later hregen clock
    by_cases hsource : (d₁.later clock).hasDirectory s.sourceRoot = d.hasDirectory s.sourceRoot
    · have hsame : searchedRoot s (d₁.later clock) = searchedRoot s d := by rw [searchedRoot, hsource, searchedRoot]
      obtain ⟨i, hscan₂⟩ := scanUnits_unruled (s := s) s.servicePattern hlater hdir
        fun hignore => hlost ⟨hsource, hignore⟩
      exact ⟨.error i, _, hsame.symm ▸ hscan₂, fun _ _ h => nomatch h⟩
    · -- Directories stay, so the source directory is new.
      have hold : d.stands s.sourceRoot ≠ .directory := fun hold => hsource <| by
        rw [Disk.hasDirectory_iff.mpr hold, Disk.hasDirectory_iff.mpr (hlater.stands_directory hold)]
      have hnew : (d₁.later clock).hasDirectory s.sourceRoot = true := by
        by_contra hnot
        rw [Bool.eq_false_iff.mpr hnot, Bool.eq_false_iff.mpr fun h => hold (Disk.hasDirectory_iff.mp h)] at hsource
        exact hsource rfl
      rw [searchedRoot, if_pos hnew]
      exact scanUnits_made houtput (s.isAbsolute_sourceRoot habs) hdots (hlater.proper hd) hlater hold
        (Disk.hasDirectory_iff.mp hnew) (hglob _ List.mem_cons_self)

/-- A second generation, without any change since the first one, comes to the same and leaves what stands at every place,
    provided that the first one kept what is searched, as it does if the source directory is there. If the first one
    wrote modules and made the source directory, or a directory in the place of the ignore file, the second one comes to
    something else. -/
theorem generate_again [Recovery] {σ σ₁ : PassState} (hproper : σ.disk.tree.Proper)
    (hs : ((projectSettings path).run σ).1 = .ok s)
    (hglob : ∀ root ∈ [s.sourceRoot, s.root],
      DescribesNoModule s.declarationsDir (σ.disk.resolve root) s.servicePattern)
    (htree : σ₁.disk.tree = ((generate path).run σ).2.disk.tree)
    (hhere : σ₁.disk.here = ((generate path).run σ).2.disk.here) :
    (SearchKept s σ.disk σ₁.disk →
      ((generate path).run σ₁).1 = ((generate path).run σ).1 ∧
        ∀ place, ((generate path).run σ₁).2.disk.tree.standing place = σ₁.disk.tree.standing place) ∧
    (σ.disk.hasDirectory s.sourceRoot = true →
      ¬s.declarationsDir.OnTheWay ((σ.disk.resolve s.sourceRoot).parts ++ [ignoreFile]) →
      SearchKept s σ.disk σ₁.disk) ∧
    (¬SearchKept s σ.disk σ₁.disk → ".." ∉ s.sourceRoot.parts → ∀ n, 0 < n →
      ((generate path).run σ).1 = .ok n → ((generate path).run σ₁).1 ≠ .ok n) := by
  have hdoes := projectSettings_of_run hs
  obtain ⟨r, d₁, hscan, hregen, hagain⟩ := scanUnits_searched hproper hdoes hglob
  obtain ⟨hresult, hdisk⟩ := generate_run hdoes hscan
  have hσ₁ : σ₁.disk = d₁.later σ₁.disk.clock := by
    rw [Disk.later, ← hdisk, ← htree, ← hhere]
  obtain ⟨hkept, hlost⟩ := hagain σ₁.disk.clock
  have hregen₁ : Disk.Regenerates s.declarationsDir σ.disk (d₁.later σ₁.disk.clock) :=
    Disk.Regenerated.later hregen σ₁.disk.clock
  rw [← hσ₁] at hkept hlost hregen₁
  have hdoes₁ := projectSettings_regenerates hdoes hregen₁
  refine ⟨fun h => ?_, SearchKept.of_source (projectSettings_root hdoes).1 hregen₁, fun h hdots n hn _ => ?_⟩
  · obtain ⟨d₂, hscan₂, hstay⟩ := hkept h
    obtain ⟨hresult₂, hdisk₂⟩ := generate_run hdoes₁ hscan₂
    refine ⟨hresult₂.trans hresult.symm, fun place => ?_⟩
    rw [hdisk₂, hstay, htree, hdisk]
  · obtain ⟨r₂, d₂, hscan₂, hother⟩ := hlost h hdots
    obtain ⟨hresult₂, -⟩ := generate_run hdoes₁ hscan₂
    exact fun hsame => hother n hn (hresult₂.symm.trans hsame)

/-! ### A project with and without source directory -/

namespace SingleUnit

/-- A project with a single unit, which lies below the given directories. -/
def project (directories : List String) : PassState :=
  { disk :=
      { tree := directories.foldr (fun name t => .directory 0 [(name, t)]) (.directory 0 [("users.service.ts", .file
          (Text.encode "export class UsersService \x7b find() \x7b return \x7b id: 1 \x7d \x7d \x7d".toList) 0)])
        here := { root := "/", parts := [] }, clock := 1 }
    rows := [], progress := Progress.empty }

def settings : Settings :=
  Settings.standard { root := "/", parts := ["project"] }

theorem proper_singleton {name : String} {t : Tree} (hname : name ≠ "..") (ht : t.Proper) :
    (Tree.directory 0 [(name, t)]).Proper :=
  Tree.proper_directory.mpr ⟨List.nodup_singleton _, List.forall_mem_singleton.mpr ⟨hname, ht⟩⟩

theorem proper_project (directories : List String) (h : ".." ∉ directories) : (project directories).disk.tree.Proper := by
  unfold project
  dsimp only
  induction directories with
  | nil => exact proper_singleton (by decide) trivial
  | cons name directories ih =>
    rw [List.mem_cons, not_or] at h
    exact proper_singleton (Ne.symm h.1) (ih h.2)

end SingleUnit

/-- In a project with a source directory the second generation comes to the same as the first one and leaves the files;
    without source directory it no longer comes to the one module that the first one wrote. -/
theorem generate_again_users :
    (((generate "/project").run ((generate "/project").run (SingleUnit.project ["project", "src"])).2).1 =
        ((generate "/project").run (SingleUnit.project ["project", "src"])).1 ∧
      ∀ place, ((generate "/project").run ((generate "/project").run
          (SingleUnit.project ["project", "src"])).2).2.disk.tree.standing place =
        ((generate "/project").run (SingleUnit.project ["project", "src"])).2.disk.tree.standing place) ∧
    ((generate "/project").run (SingleUnit.project ["project", "users"])).1 = .ok 1 ∧
    ((generate "/project").run ((generate "/project").run (SingleUnit.project ["project", "users"])).2).1 ≠ .ok 1 := by
  have hglob : ∀ d : Disk, ∀ root ∈ [SingleUnit.settings.sourceRoot, SingleUnit.settings.root], DescribesNoModule
      SingleUnit.settings.declarationsDir (d.resolve root) SingleUnit.settings.servicePattern :=
    fun d root _ => describesNoModule_standard _ _ _
  have hsettings : ∀ directory ∈ ["src", "users"], ((projectSettings "/project").run
      (SingleUnit.project ["project", directory])).1 = .ok SingleUnit.settings :=
    List.forall_mem_cons.mpr ⟨rfl, List.forall_mem_singleton.mpr rfl⟩
  have hproper : ∀ directory ∈ ["src", "users"], (SingleUnit.project ["project", directory]).disk.tree.Proper :=
    List.forall_mem_cons.mpr ⟨SingleUnit.proper_project ["project", "src"] (by decide),
      List.forall_mem_singleton.mpr (SingleUnit.proper_project ["project", "users"] (by decide))⟩
  obtain ⟨hkept, hsource, -⟩ := generate_again (hproper "src" (by decide)) (hsettings "src" (by decide)) (hglob _)
    (Eq.refl ((generate "/project").run (SingleUnit.project ["project", "src"])).2.disk.tree) rfl
  obtain ⟨-, -, hlost⟩ := generate_again (hproper "users" (by decide)) (hsettings "users" (by decide)) (hglob _)
    (Eq.refl ((generate "/project").run (SingleUnit.project ["project", "users"])).2.disk.tree) rfl
  have hapart : ¬SingleUnit.settings.declarationsDir.OnTheWay ["project", "src", ignoreFile] := by
    rintro ⟨k, hk⟩
    match k with
    | 0 | 1 | 2 | 3 => exact absurd hk (by decide)
    | k + 4 =>
      rw [List.take_of_length_le (Nat.le_add_left 4 k)] at hk
      exact absurd hk (by decide)
  have hfirst : ((generate "/project").run (SingleUnit.project ["project", "users"])).1 = .ok 1 ∧
      ((generate "/project").run (SingleUnit.project ["project", "users"])).2.disk.hasDirectory
        SingleUnit.settings.sourceRoot = true := by decide +kernel
  have hmissing : (SingleUnit.project ["project", "users"]).disk.hasDirectory SingleUnit.settings.sourceRoot = false := by
    decide
  refine ⟨hkept (hsource (by decide) hapart), hfirst.1, hlost (fun hkept => ?_) (by decide) 1 (by decide) hfirst.1⟩
  rw [hkept.1, hmissing] at hfirst
  exact Bool.false_ne_true hfirst.2

end ResponseShapes
