import ResponseShapes.Proofs.Pass.Modules

/-! # Which modules are left

Scanning writes modules and removes stale ones, and leaves every other file as it is. On its way through the sources
it only adds modules (`Disk.Adds`), and those of declared units are there; cleaning up then removes the modules that no
declared unit has. So when scanning comes to an end the modules in the directory are those of the declared units
(`scanUnits_exact`), wherever the path of the directory leads. -/

namespace ResponseShapes

open Syntax

namespace Disk

/-- The path is that of a file in the directory which is named like a module. -/
def HasModule (d : Disk) (output p : Path) : Prop :=
  ∃ name, Text.endsWith name moduleSuffix = true ∧ p = output.child name ∧ ∃ content, d.stands p = .file content

/-- The place is that of a name of a module in the directory. -/
def ModulePlace (d : Disk) (output : Path) (place : List String) : Prop :=
  ∃ name, Text.endsWith name moduleSuffix = true ∧ d.place (output.child name) = .ok place

/-- Only files that are named like modules, and lie in the directory, were written or removed. -/
abbrev Reworks (output : Path) (d d' : Disk) : Prop :=
  Regenerated (d'.ModulePlace output) (fun _ => True) d d'

/-- Where files were there are files. -/
def KeepsFiles (d d' : Disk) : Prop :=
  ∀ q content, d.tree.standing q = .file content → ∃ content', d'.tree.standing q = .file content'

/-- Modules were written, and nothing was removed. -/
structure Adds (output : Path) (d d' : Disk) : Prop where
  reworks : Reworks output d d'
  keeps : KeepsFiles d d'

variable {d d' d'' d₁ : Disk} {output p : Path} {place : List String} {name text : String}

/-! ### Modules of a directory -/

theorem exists_home (hname : Text.endsWith name moduleSuffix = true) (h : d.place (output.child name) = .ok place) :
    ∃ home, d.place output = .ok home ∧ d.tree.standing home = .directory ∧ place = home ++ [name] := by
  have hdir := stands_of_place_child h
  obtain ⟨home, hhome, hstanding⟩ := exists_place_of_stands (p := output) (by rw [hdir]; exact Standing.noConfusion)
  rw [hdir] at hstanding
  exact ⟨home, hhome, hstanding,
    Except.ok.inj (h.symm.trans (place_child_of_directory hhome hstanding (ne_dots_of_endsWith hname)))⟩

theorem Reworks.trans (h : Reworks output d d') (h' : Reworks output d' d'') : Reworks output d d'' :=
  (h.mono (fun _ ⟨name, hname, hplace⟩ => ⟨name, hname, h'.place_eq hplace⟩) fun _ => id).trans h'

/-- A module that is written, or one that is removed. -/
theorem reworks_put {new : Option Tree} (hname : Text.endsWith name moduleSuffix = true)
    (hplace : d.place (output.child name) = .ok place) (hold : d.tree.standing place ≠ .directory) (hnew : Tree.Bare new)
    (hfile : Standing.of new ≠ .directory) :
    Reworks output d (d.put place new) ∧
      ∀ q, (d.put place new).tree.standing q = if q = place then Standing.of new else d.tree.standing q := by
  obtain ⟨home, -, hdir, rfl⟩ := exists_home hname hplace
  have hregen : Regenerated (· = home ++ [name]) (fun _ => True) d (d.put (home ++ [name]) new) :=
    .put hdir (dots_notMem_follow List.not_mem_nil hplace) hnew hold (fun h => absurd h hfile) fun _ => rfl
  refine ⟨hregen.mono ?_ fun _ => id, Tree.standing_set hdir hnew (Tree.bare_of_standing hold)⟩
  rintro _ rfl
  exact ⟨name, hname, hregen.place_eq hplace⟩

/-! ### Adding modules -/

namespace Adds

theorem refl (output : Path) (d : Disk) : Adds output d d where
  reworks := .refl _ _ d
  keeps _ content h := ⟨content, h⟩

theorem trans (h : Adds output d d') (h' : Adds output d' d'') : Adds output d d'' where
  reworks := h.reworks.trans h'.reworks
  keeps q content hfile := by
    obtain ⟨content', hfile'⟩ := h.keeps q content hfile
    exact h'.keeps q content' hfile'

theorem hasModule (h : Adds output d d') (hp : d.HasModule output p) : d'.HasModule output p := by
  obtain ⟨name, hname, rfl, content, hstands⟩ := hp
  obtain ⟨place, hplace, hstanding⟩ := exists_place_of_stands (d := d) (p := output.child name) (by
    rw [hstands]
    exact Standing.noConfusion)
  obtain ⟨content', hfile⟩ := h.keeps place content (hstanding.trans hstands)
  exact ⟨name, hname, rfl, content', (stands_of_place (h.reworks.place_eq hplace)).trans hfile⟩

end Adds

/-- Making directories adds nothing but directories. -/
theorem adds_makeDirectories (output : Path) {failure : Option DiskError} (h : d.makeDirectories p = (d', failure)) :
    Adds output d d' := by
  have hregen := (d.makeDirectoriesFrom_regenerated p.parts.length p).1
  rw [← makeDirectories, h] at hregen
  exact ⟨hregen.mono (fun _ => False.elim) fun _ => id, fun q content hfile =>
    ⟨content, (hregen.others q not_false content).mpr hfile⟩⟩

/-- A text is written unless a directory stands in its place. -/
theorem writeText_cases (d : Disk) (p : Path) (text : List Char) : (∃ e, d.writeText p text = .error e) ∨
    ∃ place, d.place p = .ok place ∧ d.tree.standing place ≠ .directory ∧
      d.writeText p text = .ok (d.put place (some (.file (Text.encode text) d.clock))) := by
  unfold writeText writeBytes Tree.standing
  cases hplace : d.place p with
  | error cause => exact .inl ⟨_, rfl⟩
  | ok place =>
    cases hfind : d.tree.find? place with
    | none => exact .inr ⟨place, rfl, by simp [hfind], by simp [about, bind, Except.bind, hfind, pure, Except.pure]⟩
    | some t =>
      cases t with
      | directory time children => exact .inl ⟨{ cause := .isDirectory, path := p }, by simp [about, bind, Except.bind, hfind]⟩
      | file content time =>
        exact .inr ⟨place, rfl, by simp [hfind], by simp [about, bind, Except.bind, hfind, pure, Except.pure]⟩

/-- A file is removed, and nothing else. -/
theorem remove_cases (d : Disk) (p : Path) :
    ((∃ e, d.remove p = .error e) ∧ ∀ content, d.stands p ≠ .file content) ∨
    ∃ place content, d.place p = .ok place ∧ d.tree.standing place = .file content ∧
      d.remove p = .ok (d.put place none) := by
  unfold remove stands Tree.standing
  cases hplace : d.place p with
  | error cause => exact .inl ⟨⟨_, rfl⟩, nofun⟩
  | ok place =>
    cases hfind : d.tree.find? place with
    | none => exact .inl ⟨⟨{ cause := .missing, path := p }, by simp [about, bind, Except.bind, hfind]⟩, by simp [hfind]⟩
    | some t =>
      cases t with
      | directory time children =>
        exact .inl ⟨⟨{ cause := .isDirectory, path := p }, by simp [about, bind, Except.bind, hfind]⟩, by simp [hfind]⟩
      | file content time =>
        exact .inr ⟨place, content, rfl, by simp [hfind], by simp [about, bind, Except.bind, hfind, pure, Except.pure]⟩

theorem exists_file_of_readText {cs : List Char} (h : d.readText p = .ok cs) : ∃ content, d.stands p = .file content := by
  cases hstands : d.stands p with
  | nothing =>
    obtain ⟨e, hentry⟩ : ∃ e, d.entry p = .error e := by simpa [hstands] using entry_cases d p
    simp [readText, readBytes, hentry, bind, Except.bind] at h
  | directory => rw [readText_of_directory hstands] at h; cases h
  | file content => exact ⟨content, rfl⟩

end Disk

variable {s : Settings} {root output p : Path} {ps : List Path} {pattern name text : String} {d d' d₁ : Disk}
  {a : UnitAnalysis} {found : FoundUnits} {units : List DeclaredUnit}

/-! ### Writing one module -/

/-- Writing a module with the directories around it adds it, or it fails. -/
theorem Pass.written_adds (hname : Text.endsWith name moduleSuffix = true) {failure : Option DiskError}
    (h : written (output.child name) text d = (d', failure)) :
    Disk.Adds output d d' ∧ (failure = none → d'.HasModule output (output.child name)) := by
  unfold written at h
  rw [Path.parent_child] at h
  rcases hmake : d.makeDirectories output with ⟨d₁, _ | e⟩ <;> rw [hmake] at h
  · have hmade := Disk.adds_makeDirectories output hmake
    obtain ⟨e, hwrite⟩ | ⟨place, hplace, hold, hwrite⟩ := d₁.writeText_cases (output.child name) text.toList
    · simp only [hwrite, Prod.mk.injEq] at h
      obtain ⟨rfl, rfl⟩ := h
      exact ⟨hmade, nofun⟩
    · simp only [hwrite, Prod.mk.injEq] at h
      obtain ⟨rfl, rfl⟩ := h
      obtain ⟨hreworks, hset⟩ := Disk.reworks_put hname hplace hold (Tree.bare_file (Text.encode text.toList) d₁.clock)
        Standing.noConfusion
      refine ⟨hmade.trans ⟨hreworks, fun q content hfile => ?_⟩, fun _ => ⟨name, hname, rfl, Text.encode text.toList, ?_⟩⟩
      · rw [hset]
        split
        · exact ⟨_, rfl⟩
        · exact ⟨content, hfile⟩
      · rw [Disk.stands_of_place (hreworks.place_eq hplace), hset, if_pos rfl]
        rfl
  · simp only [Prod.mk.injEq] at h
    obtain ⟨rfl, rfl⟩ := h
    exact ⟨Disk.adds_makeDirectories output hmake, nofun⟩

/-- Writing a module adds it, finds it there, or fails. -/
theorem Pass.writeOutput_adds (output : Path) (hname : Text.endsWith name moduleSuffix = true) (text : String) (d : Disk) :
    ∃ r d', Does (writeOutput (output.child name) text) d r d' ∧ Disk.Adds output d d' ∧
      ∀ x, r = .ok x → x.isOk = true → d'.HasModule output (output.child name) := by
  rcases hwritten : written (output.child name) text d with ⟨d', failure⟩
  obtain ⟨hadds, hhas⟩ := written_adds hname hwritten
  have hwrites : ∀ {x : Except Failure Bool}, (x.isOk = true ↔ failure = none) → Does (writeOutput (output.child name) text)
      d (.ok x) d' → ∃ r d', Does (writeOutput (output.child name) text) d r d' ∧ Disk.Adds output d d' ∧
        ∀ x, r = .ok x → x.isOk = true → d'.HasModule output (output.child name) := fun {x} hok hdoes =>
    ⟨.ok x, d', hdoes, hadds, fun x' hx' htrue => hhas (hok.mp (Except.ok.inj hx' ▸ htrue))⟩
  cases hthere : d.has (output.child name) with
  | false =>
    obtain ⟨x, hdoes, hok⟩ := writeOutput_fresh hthere hwritten
    exact hwrites hok hdoes
  | true =>
    cases hread : d.readText (output.child name) with
    | error e =>
      cases e with
      | encoding e => exact ⟨_, d, writeOutput_unreadable hthere hread, .refl _ d, nofun⟩
      | disk e =>
        exact ⟨_, d, writeOutput_refused hthere hread, .refl _ d, fun x hx htrue => by
          rw [← Except.ok.inj hx] at htrue
          cases htrue⟩
    | ok cs =>
      by_cases hsame : cs = text.toList
      · exact ⟨_, d, writeOutput_same hthere (hsame ▸ hread), .refl _ d, fun _ _ _ =>
          ⟨name, hname, rfl, Disk.exists_file_of_readText hread⟩⟩
      · obtain ⟨x, hdoes, hok⟩ := writeOutput_over hthere hread hsame hwritten
        exact hwrites hok hdoes

/-! ### From source to source -/

theorem writeModule_adds (s : Settings) (output : Path) (a : UnitAnalysis) (d : Disk) :
    ∃ r d', (writeModule s output a).Does d r d' ∧ Disk.Adds output d d' ∧
      ∀ u, r = .ok (some u) → d'.HasModule output u.module := by
  cases hm : moduleOf? s a with
  | none => exact ⟨_, d, .writeModule_none output hm, .refl _ d, nofun⟩
  | some m =>
    obtain ⟨r, d', hdoes, hadds, hhas⟩ := Pass.writeOutput_adds output (fileName_of_moduleOf? hm) m.text d
    cases r with
    | error i => exact ⟨_, d', .writeModule_error hm hdoes, hadds, nofun⟩
    | ok x =>
      refine ⟨_, d', .writeModule_ok hm hdoes, hadds, fun u hu => ?_⟩
      cases hx : x.isOk with
      | false => simp [hx] at hu
      | true =>
        obtain rfl : DeclaredUnit.ofModule a m (output.child m.fileName) = u := by simpa [hx] using hu
        exact hhas x rfl hx

/-- The modules of the units are in the directory. -/
def Disk.HasModules (d : Disk) (output : Path) (units : List DeclaredUnit) : Prop :=
  ∀ u ∈ units, d.HasModule output u.module

theorem Disk.Adds.hasModules (h : Disk.Adds output d d') (hunits : d.HasModules output units) : d'.HasModules output units :=
  fun u hu => h.hasModule (hunits u hu)

/-- Adding a unit keeps the modules of those that are declared, and adds its own if it is declared then. -/
theorem addUnit_adds [Recovery] (s : Settings) (p : Path) (found : FoundUnits)
    (hfound : d.HasModules output found.declared) :
    ∃ r d', (addUnit s output found p).Does d r d' ∧ Disk.Adds output d d' ∧
      ∀ found', r = .ok found' → d'.HasModules output found'.declared := by
  obtain hskip | ⟨a, hunit, hseen, -⟩ := source_cases s d found.seen p
  · exact ⟨_, d, .addUnit_skips hskip, .refl _ d, fun _ h => Except.ok.inj h ▸ hfound⟩
  obtain ⟨r, d', hdoes, hadds, hhas⟩ := writeModule_adds s output a d
  refine ⟨_, d', .addUnit_writes hunit hseen hdoes, hadds, fun found' h => ?_⟩
  cases r with
  | error i => cases h
  | ok written =>
    obtain rfl := Except.ok.inj h
    refine List.forall_mem_append.mpr ⟨hadds.hasModules hfound, fun u hu => hhas u ?_⟩
    rw [Option.mem_toList.mp hu]

/-- On the way through the sources modules are added, and those of declared units are there in the end. -/
theorem foldlM_addUnit_adds [Recovery] (s : Settings) (ps : List Path) (found : FoundUnits)
    (hfound : d.HasModules output found.declared) :
    ∃ r d', (ps.foldlM (addUnit s output) found).Does d r d' ∧ Disk.Adds output d d' ∧
      ∀ found', r = .ok found' → d'.HasModules output found'.declared := by
  induction ps generalizing found d with
  | nil => exact ⟨_, d, .pure found d, .refl _ d, fun _ h => Except.ok.inj h ▸ hfound⟩
  | cons p ps ih =>
    obtain ⟨_ | found₁, d₁, hhead, hadds₁, hfound₁⟩ := addUnit_adds s p found hfound
    · exact ⟨_, d₁, hhead.bind_error, hadds₁, nofun⟩
    · obtain ⟨r, d₂, htail, hadds₂, hfound₂⟩ := ih found₁ (hfound₁ found₁ rfl)
      exact ⟨r, d₂, hhead.bind htail, hadds₁.trans hadds₂, hfound₂⟩

/-! ### Removing modules -/

/-- Removing a module leaves the other modules of the directory. -/
theorem removeModule_reworks (output : Path) (hname : Text.endsWith name moduleSuffix = true) (d : Disk) :
    ∃ d', (removeModule (output.child name)).Does d (.ok ()) d' ∧ Disk.Reworks output d d' ∧
      ∀ p, d'.HasModule output p ↔ d.HasModule output p ∧ p ≠ output.child name := by
  obtain ⟨⟨e, hremove⟩, hno⟩ | ⟨place, content, hplace, hfile, hremove⟩ := d.remove_cases (output.child name)
  · refine ⟨d, Pass.Does.disk_bind ?_, .refl _ _ d, fun p => ⟨fun hp => ⟨hp, ?_⟩, And.left⟩⟩
    · rw [hremove]
      exact Pass.Does.say _ _ _ d
    · rintro rfl
      obtain ⟨name', -, -, content, hstands⟩ := hp
      exact hno content hstands
  · obtain ⟨hreworks, hset⟩ := Disk.reworks_put hname hplace (by rw [hfile]; exact Standing.noConfusion) Tree.bare_none
      Standing.noConfusion
    refine ⟨d.put place none, Pass.Does.disk_bind ?_, hreworks, fun p => ?_⟩
    · rw [hremove]
      exact (Pass.Does.change_ok rfl).bind (Pass.Does.say _ _ _ _)
    -- Every name leads to the same place as before.
    obtain ⟨home, hhome, hdir, rfl⟩ := Disk.exists_home hname hplace
    have hchild : ∀ {other}, Text.endsWith other moduleSuffix = true →
        (d.put (home ++ [name]) none).stands (output.child other) =
          if other = name then .nothing else d.stands (output.child other) := fun {other} hother => by
      have hotherPlace := Disk.place_child_of_directory hhome hdir (ne_dots_of_endsWith hother)
      rw [Disk.stands_of_place (hreworks.place_eq hotherPlace), Disk.stands_of_place hotherPlace, hset]
      simp
    constructor
    · rintro ⟨other, hother, rfl, content, hstands⟩
      rw [hchild hother] at hstands
      split at hstands
      · cases hstands
      · rename_i hne
        exact ⟨⟨other, hother, rfl, content, hstands⟩, fun heq => hne (Path.child_injective heq)⟩
    · rintro ⟨⟨other, hother, rfl, content, hstands⟩, hne⟩
      refine ⟨other, hother, rfl, content, ?_⟩
      rw [hchild hother, if_neg (fun heq => hne (congrArg output.child heq)), hstands]

theorem forM_removeModule_reworks (hps : ∀ p ∈ ps, ∃ name, Text.endsWith name moduleSuffix = true ∧ p = output.child name)
    (d : Disk) : ∃ d', (ps.forM removeModule).Does d (.ok ()) d' ∧ Disk.Reworks output d d' ∧
      ∀ p, d'.HasModule output p ↔ d.HasModule output p ∧ p ∉ ps := by
  induction ps generalizing d with
  | nil => exact ⟨d, .pure () d, .refl _ _ d, by simp⟩
  | cons p ps ih =>
    obtain ⟨⟨name, hname, rfl⟩, hrest⟩ := List.forall_mem_cons.mp hps
    obtain ⟨d₁, hhead, hreworks₁, hleft₁⟩ := removeModule_reworks output hname d
    obtain ⟨d₂, htail, hreworks₂, hleft₂⟩ := ih hrest d₁
    refine ⟨d₂, hhead.bind htail, hreworks₁.trans hreworks₂, fun q => ?_⟩
    rw [hleft₂, hleft₁, List.mem_cons, not_or, and_assoc]

/-- Cleaning up leaves the modules that are to be kept. -/
theorem removeStaleModules_reworks (output : Path) (keep : List String) (d : Disk) :
    ∃ d', (removeStaleModules output keep).Does d (.ok ()) d' ∧ Disk.Reworks output d d' ∧
      ∀ p, d'.HasModule output p ↔ d.HasModule output p ∧ p.name ∈ keep := by
  by_cases hdir : d.stands output = .directory
  · have hstale : ∀ p ∈ (moduleEntries d output).filter fun p => !keep.contains p.name,
        ∃ name, Text.endsWith name moduleSuffix = true ∧ p = output.child name := fun p hp => by
      obtain ⟨name, -, hname, heq⟩ := (mem_moduleEntries d output).mp (List.mem_of_mem_filter hp)
      exact ⟨name, hname, heq⟩
    obtain ⟨d', hdoes, hreworks, hleft⟩ := forM_removeModule_reworks hstale d
    refine ⟨d', Pass.Does.disk_bind ?_, hreworks, fun p => (hleft p).trans (and_congr_right ?_)⟩
    · rw [Disk.hasDirectory_iff.mpr hdir]
      exact hdoes
    rintro ⟨name, hname, rfl, content, hstands⟩
    obtain ⟨home, hhome, -⟩ := Disk.exists_place_of_stands (p := output) (by rw [hdir]; exact Standing.noConfusion)
    obtain ⟨place, hplace, hfile⟩ := Disk.exists_place_of_stands (d := d) (p := output.child name) (by
      rw [hstands]
      exact Standing.noConfusion)
    obtain ⟨home', hhome', -, rfl⟩ := Disk.exists_home hname hplace
    obtain rfl : home = home' := Except.ok.inj (hhome.symm.trans hhome')
    have hentry : output.child name ∈ moduleEntries d output :=
      (mem_moduleEntries d output).mpr ⟨name, (Disk.mem_names_iff hhome).mpr (by
        rw [hfile, hstands]
        exact Standing.noConfusion), hname, rfl⟩
    simp [List.mem_filter, hentry]
  · refine ⟨d, .removeStaleModules_closed hdir keep, .refl _ _ d, fun p => ⟨fun hp => absurd ?_ hdir, And.left⟩⟩
    obtain ⟨name, -, rfl, content, hstands⟩ := hp
    obtain ⟨place, hplace, -⟩ := Disk.exists_place_of_stands (d := d) (p := output.child name) (by
      rw [hstands]
      exact Standing.noConfusion)
    exact Disk.stands_of_place_child hplace

/-! ### Scanning -/

/-- What scanning does with the sources that it lists. -/
theorem scanListed_exact [Recovery] (s : Settings) (output : Path) (ps : List Path) (d : Disk) :
    ∃ r d', (scanListed s output ps).Does d r d' ∧ Disk.Reworks output d d' ∧ (s.clean = false → Disk.KeepsFiles d d') ∧
      ∀ units, r = .ok units → s.clean = true → ∀ p, d'.HasModule output p ↔ ∃ u ∈ units, u.module = p := by
  have hnone : d.HasModules output [] := List.forall_mem_nil _
  obtain ⟨_ | found, d₁, hfold, hadds, hunits⟩ := foldlM_addUnit_adds s ps { seen := [], declared := [] } hnone
  · exact ⟨_, d₁, hfold.bind_error, hadds.reworks, fun _ => hadds.keeps, nofun⟩
  have hunits := hunits found rfl
  by_cases hclean : s.clean = true
  · obtain ⟨d₂, hremove, hreworks, hleft⟩ := removeStaleModules_reworks output (moduleNames found.declared) d₁
    refine ⟨_, d₂, .scanListed_ok hfold (by rw [if_pos hclean]; exact hremove), hadds.reworks.trans hreworks,
      fun hno => absurd hclean (by simp [hno]), ?_⟩
    rintro _ ⟨⟩ - p
    rw [hleft, moduleNames, List.mem_map]
    constructor
    · rintro ⟨⟨name, -, rfl, -⟩, u, hu, hname⟩
      obtain ⟨name', -, hmodule, -⟩ := hunits u hu
      rw [hmodule, Path.name_child, Path.name_child] at hname
      exact ⟨u, hu, hname ▸ hmodule⟩
    · rintro ⟨u, hu, rfl⟩
      exact ⟨hunits u hu, u, hu, rfl⟩
  · exact ⟨_, d₁, .scanListed_ok hfold (by rw [if_neg hclean]; exact .pure () d₁), hadds.reworks, fun _ => hadds.keeps,
      fun _ _ h => absurd h hclean⟩

/-- Scanning changes no file but those in the directory that are named like modules, whether it comes to an end or not.
    If it does and stale modules are to be removed, the files of this kind are the modules of the declared units; if they
    are not to be removed, no file is. -/
theorem scanUnits_exact [Recovery] (s : Settings) (root : Path) (pattern : String) (output : Path) (σ : PassState) :
    (∀ q, ¬((scanUnits s root pattern output).run σ).2.disk.ModulePlace output q →
      ((scanUnits s root pattern output).run σ).2.disk.tree.file? q = σ.disk.tree.file? q) ∧
    (∀ units, ((scanUnits s root pattern output).run σ).1 = .ok units → s.clean = true → ∀ p,
      ((scanUnits s root pattern output).run σ).2.disk.HasModule output p ↔ ∃ u ∈ units, u.module = p) ∧
    (s.clean = false → Disk.KeepsFiles σ.disk ((scanUnits s root pattern output).run σ).2.disk) := by
  obtain ⟨r, hlist⟩ := listSources_does root pattern s.excludePaths σ.disk
  obtain ⟨r', d', hscan, hreworks, hkeeps, hexact⟩ : ∃ r' d', (scanUnits s root pattern output).Does σ.disk r' d' ∧
      Disk.Reworks output σ.disk d' ∧ (s.clean = false → Disk.KeepsFiles σ.disk d') ∧ ∀ units, r' = .ok units →
        s.clean = true → ∀ p, d'.HasModule output p ↔ ∃ u ∈ units, u.module = p := by
    cases r with
    | error i => exact ⟨_, σ.disk, hlist.bind_error, .refl _ _ _, fun _ q content h => ⟨content, h⟩, nofun⟩
    | ok ps =>
      obtain ⟨r', d', hscan, hspec⟩ := scanListed_exact s output ps σ.disk
      exact ⟨r', d', hlist.bind hscan, hspec⟩
  obtain ⟨hr, hd, -⟩ := (hscan.reaches σ.progress).run
  rw [hr, hd]
  exact ⟨hreworks.files, hexact, hkeeps⟩

/-! ### A module that is left over -/

namespace Leftover

def settings : Settings :=
  .standard { root := "/", parts := ["project"] }

/-- A project with one unit, among whose modules there is one of a unit that is gone. -/
def project : PassState :=
  { disk :=
      { tree := .directory 0 [("project", .directory 0 [("src", .directory 0
          [("a.service.ts", TwoUnits.source "UsersService"), ("generated", .directory 0 [("responses", .directory 0
            [("gone.response.ts", .file [] 0), ("old", .directory 0 [("gone.response.ts", .file [] 0)])])])])])]
        here := { root := "/", parts := [] }, clock := 1 }
    rows := [], progress := Progress.empty }

def source : Path :=
  settings.sourceRoot.child "a.service.ts"

def target : Path :=
  settings.declarationsDir.child "usersservice.response.ts"

theorem lists_project : ((listSources settings.sourceRoot settings.servicePattern settings.excludePaths).run
    project).1 = .ok [source] := by
  decide +kernel

theorem addUnit_source : (((addUnit settings settings.declarationsDir { seen := [], declared := [] } source).run project).1.map
    fun found => found.declared.map (·.module)) = .ok [target] := by
  decide +kernel

/-- Scanning the project declares its unit. -/
theorem scanUnits_project : ∃ u, ((scanUnits settings settings.sourceRoot settings.servicePattern
    settings.declarationsDir).run project).1 = .ok [u] ∧ u.module = target := by
  have hnone : project.disk.HasModules settings.declarationsDir [] := List.forall_mem_nil _
  obtain ⟨r, d₁, hadd, -⟩ := addUnit_adds settings source { seen := [], declared := [] } hnone
  have hr := addUnit_source
  rw [((hadd.reaches project.progress).run (σ := project)).1] at hr
  cases r with
  | error i => cases hr
  | ok found =>
    obtain ⟨u, hu, hmodule⟩ := List.map_eq_singleton_iff.mp (Except.ok.inj hr)
    obtain ⟨d₂, hremove, -⟩ := removeStaleModules_reworks settings.declarationsDir (moduleNames found.declared) d₁
    have hscan : (scanUnits settings settings.sourceRoot settings.servicePattern settings.declarationsDir).Does
        project.disk (.ok found.declared) d₂ :=
      .scanUnits_ok (listSources_of_run lists_project) (hadd.bind (.pure found d₁)) hremove
    exact ⟨u, hu ▸ ((hscan.reaches project.progress).run (σ := project)).1, hmodule⟩

/-- The module that is left over is removed, the one in the directory below is not. -/
theorem scanUnits_exact_leftover :
    project.disk.HasModule settings.declarationsDir (settings.declarationsDir.child "gone.response.ts") ∧
    (∃ u, ((scanUnits settings settings.sourceRoot settings.servicePattern settings.declarationsDir).run project).1 =
      .ok [u] ∧ settings.clean = true) ∧
    (∀ p, ((scanUnits settings settings.sourceRoot settings.servicePattern
      settings.declarationsDir).run project).2.disk.HasModule settings.declarationsDir p ↔ p = target) ∧
    ((scanUnits settings settings.sourceRoot settings.servicePattern
      settings.declarationsDir).run project).2.disk.tree.file?
        ["project", "src", "generated", "responses", "old", "gone.response.ts"] = some ([], 0) := by
  obtain ⟨u, hrun, hmodule⟩ := scanUnits_project
  obtain ⟨hothers, hexact, -⟩ := scanUnits_exact settings settings.sourceRoot settings.servicePattern
    settings.declarationsDir project
  refine ⟨⟨"gone.response.ts", by decide, rfl, [], by decide⟩, ⟨u, hrun, rfl⟩, fun p => ?_, (hothers _ ?_).trans (by decide)⟩
  · rw [hexact [u] hrun rfl p, ← hmodule]
    simp [eq_comm]
  · rintro ⟨name, hname, hplace⟩
    obtain ⟨home, hhome, -, heq⟩ := Disk.exists_home hname hplace
    obtain rfl := Disk.place_eq (by decide) hhome
    cases heq

end Leftover

end ResponseShapes
