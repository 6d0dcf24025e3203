import ResponseShapes.Proofs.Pass.Declarations

/-! # Scanning units

Removing stale modules takes away the files with names of modules that are not to be kept, and nothing else
(`removeStaleModules_does`). Scanning the units of the same sources once more comes to the same and leaves every file as
it is (`scanUnits_again`). -/

namespace ResponseShapes

variable {s : Settings} {output p : Path} {ps : List Path} {d d' d₁ d₂ : Disk} {name : String} {keep : List String}

/-! ### Removing modules -/

/-- What stands at a place after a module was removed: only a directory stays. -/
def Standing.removed (st : Standing) : Standing :=
  if st = .directory then st else .nothing

@[simp] theorem Standing.removed_removed (st : Standing) : st.removed.removed = st.removed := by
  unfold removed
  split <;> simp_all

theorem Path.child_injective {name name' : String} (h : output.child name = output.child name') : name = name' := by
  simpa [Path.child] using h

/-- Removing a module takes away a file, and fails otherwise. -/
theorem Disk.remove_output (hplace : d.place (output.child name) = .ok (output.home ++ [name])) :
    ((d.tree.standing (output.home ++ [name])).removed = d.tree.standing (output.home ++ [name]) ∧
      ∃ e, d.remove (output.child name) = .error e) ∨
    (∃ content time, d.tree.find? (output.home ++ [name]) = some (.file content time) ∧
      d.remove (output.child name) = .ok (d.put (output.home ++ [name]) none)) := by
  unfold remove Tree.standing
  rw [hplace]
  cases hfind : d.tree.find? (output.home ++ [name]) with
  | none =>
    refine Or.inl ⟨rfl, { cause := .missing, path := output.child name }, ?_⟩
    simp [about, bind, Except.bind, hfind]
  | some t =>
    cases t with
    | directory time children =>
      refine Or.inl ⟨rfl, { cause := .isDirectory, path := output.child name }, ?_⟩
      simp [about, bind, Except.bind, hfind]
    | file content time =>
      refine Or.inr ⟨content, time, rfl, ?_⟩
      simp [about, bind, Except.bind, hfind, pure, Except.pure]

theorem Pass.Does.removeModule (habs : output.isAbsolute) (hdir : d.stands output = .directory)
    (hname : Text.endsWith name moduleSuffix = true) :
    ∃ d', (removeModule (output.child name)).Does d (.ok ()) d' ∧ Disk.Regenerates output d d' ∧
      ∀ q, d'.tree.standing q = if q = output.home ++ [name] then (d.tree.standing q).removed else d.tree.standing q := by
  obtain ⟨hhome, hdots, hplace⟩ := Disk.place_output habs hdir (ne_dots_of_endsWith hname)
  obtain ⟨hkept, e, hremove⟩ | ⟨content, time, hfind, hremove⟩ := Disk.remove_output hplace
  · refine ⟨d, disk_bind ?_, .refl _ _ d, fun q => ?_⟩
    · rw [hremove]
      exact say _ _ _ d
    · split
      · rename_i hq
        rw [hq, hkept]
      · rfl
  · have hold : d.tree.standing (output.home ++ [name]) ≠ .directory := by
      rw [Tree.standing, hfind]
      exact Standing.noConfusion
    refine ⟨d.put (output.home ++ [name]) none, disk_bind ?_,
      .put hhome hdots Tree.bare_none hold (fun h => by cases h) fun _ => ⟨name, hname, rfl⟩, fun q => ?_⟩
    · rw [hremove]
      exact (change_ok rfl).bind (say _ _ _ _)
    · refine (Tree.standing_set hhome Tree.bare_none (Tree.bare_of_standing hold) q).trans ?_
      split
      · rename_i hq
        rw [hq, Standing.removed, if_neg hold]
        rfl
      · rfl

theorem Pass.Does.forM_removeModule (habs : output.isAbsolute) (hdir : d.stands output = .directory) (ps : List Path)
    (hps : ∀ p ∈ ps, ∃ name, Text.endsWith name moduleSuffix = true ∧ p = output.child name) :
    ∃ d', (ps.forM ResponseShapes.removeModule).Does d (.ok ()) d' ∧ Disk.Regenerates output d d' ∧
      ∀ q, ((∃ name, output.child name ∈ ps ∧ q = output.home ++ [name]) →
          d'.tree.standing q = (d.tree.standing q).removed) ∧
        ((¬∃ name, output.child name ∈ ps ∧ q = output.home ++ [name]) → d'.tree.standing q = d.tree.standing q) := by
  induction ps generalizing d with
  | nil => exact ⟨d, pure () d, .refl _ _ d, fun q => ⟨by simp, fun _ => rfl⟩⟩
  | cons p ps ih =>
    obtain ⟨⟨name, hname, rfl⟩, hrest⟩ := List.forall_mem_cons.mp hps
    obtain ⟨d₁, hhead, hregen₁, hset₁⟩ := removeModule habs hdir hname
    obtain ⟨d₂, htail, hregen₂, hset₂⟩ := ih (hregen₁.stands_directory hdir) hrest
    refine ⟨d₂, hhead.bind htail, hregen₁.trans hregen₂, fun q => ?_⟩
    by_cases hmore : ∃ name, output.child name ∈ ps ∧ q = output.home ++ [name]
    · obtain ⟨name', hmem, hq⟩ := hmore
      have hresult : d₂.tree.standing q = (d.tree.standing q).removed := by
        rw [(hset₂ q).1 ⟨name', hmem, hq⟩, hset₁]
        split <;> simp
      exact ⟨fun _ => hresult, fun h => absurd ⟨name', List.mem_cons_of_mem _ hmem, hq⟩ h⟩
    · rw [(hset₂ q).2 hmore, hset₁]
      by_cases hq : q = output.home ++ [name]
      · rw [if_pos hq]
        exact ⟨fun _ => rfl, fun h => absurd ⟨name, List.mem_cons_self, hq⟩ h⟩
      · rw [if_neg hq]
        refine ⟨?_, fun _ => rfl⟩
        rintro ⟨name', hmem, hq'⟩
        rcases List.mem_cons.mp hmem with heq | hmem
        · exact absurd (Path.child_injective heq ▸ hq') hq
        · exact absurd ⟨name', hmem, hq'⟩ hmore

/-- The places of modules whose names are not to be kept. -/
def StalePlace (output : Path) (keep : List String) (place : List String) : Prop :=
  ∃ name, Text.endsWith name moduleSuffix = true ∧ name ∉ keep ∧ place = output.home ++ [name]

theorem mem_moduleEntries (d : Disk) (output : Path) : p ∈ moduleEntries d output ↔
    ∃ name ∈ d.names output, Text.endsWith name moduleSuffix = true ∧ p = output.child name := by
  unfold moduleEntries Path.sort
  rw [(List.mergeSort_perm _ _).mem_iff, List.mem_map]
  simp only [List.mem_filter, and_assoc, eq_comm]

/-- Removing stale modules. -/
theorem Pass.Does.removeStaleModules (habs : output.isAbsolute) (hdir : d.stands output = .directory)
    (keep : List String) :
    ∃ d', (removeStaleModules output keep).Does d (.ok ()) d' ∧ Disk.Regenerates output d d' ∧
      ∀ q, (StalePlace output keep q → d'.tree.standing q = (d.tree.standing q).removed) ∧
        (¬StalePlace output keep q → d'.tree.standing q = d.tree.standing q) := by
  have hmem : ∀ {name}, output.child name ∈ ((moduleEntries d output).filter fun p => !keep.contains p.name) ↔
      name ∈ d.names output ∧ Text.endsWith name moduleSuffix = true ∧ name ∉ keep := by
    intro name
    rw [List.mem_filter, mem_moduleEntries, Path.name_child]
    constructor
    · rintro ⟨⟨name', hnames, hsuffix, heq⟩, hkeep⟩
      obtain rfl := Path.child_injective heq
      exact ⟨hnames, hsuffix, by simpa using hkeep⟩
    · rintro ⟨hnames, hsuffix, hkeep⟩
      exact ⟨⟨name, hnames, hsuffix, rfl⟩, by simpa using hkeep⟩
  obtain ⟨d', hdoes, hregen, hset⟩ := forM_removeModule habs hdir
    ((moduleEntries d output).filter fun p => !keep.contains p.name) fun p hp => by
      obtain ⟨name, -, hsuffix, heq⟩ := (mem_moduleEntries d output).mp (List.mem_of_mem_filter hp)
      exact ⟨name, hsuffix, heq⟩
  obtain ⟨place, hplace, -⟩ := Disk.exists_place_of_stands (p := output) (by rw [hdir]; exact Standing.noConfusion)
  obtain rfl : place = output.home := Disk.place_eq habs hplace
  refine ⟨d', disk_bind ?_, hregen, fun q => ⟨?_, fun hstale => (hset q).2 ?_⟩⟩
  · rw [Disk.hasDirectory_iff.mpr hdir]
    exact hdoes
  · rintro ⟨name, hsuffix, hkeep, rfl⟩
    by_cases hnames : name ∈ d.names output
    · exact (hset _).1 ⟨name, hmem.mpr ⟨hnames, hsuffix, hkeep⟩, rfl⟩
    · have hnone : d.tree.standing (output.home ++ [name]) = .nothing := by
        by_contra hsome
        exact hnames ((Disk.mem_names_iff hplace).mpr hsome)
      rw [(hset _).2, hnone]
      · rfl
      · rintro ⟨name', hmem', heq⟩
        obtain rfl : name = name' := by simpa using heq
        exact hnames (hmem.mp hmem').1
  · rintro ⟨name, hmem', rfl⟩
    exact hstale ⟨name, (hmem.mp hmem').2.1, (hmem.mp hmem').2.2, rfl⟩

/-- Without a directory there is nothing to remove. -/
theorem Pass.Does.removeStaleModules_closed (hdir : d.stands output ≠ .directory) (keep : List String) :
    (ResponseShapes.removeStaleModules output keep).Does d (.ok ()) d := by
  refine disk_bind ?_
  rw [Bool.eq_false_iff.mpr fun h => hdir (Disk.hasDirectory_iff.mp h)]
  exact pure () d

/-! ### Scanning -/

/-- The names of the modules of units. -/
def moduleNames (units : List DeclaredUnit) : List String :=
  units.map (·.module.name)

/-- A written module is to be kept. -/
theorem fileName_mem_of_deliveries {ws : List (UnitAnalysis × DeclarationModule)} {units : List DeclaredUnit}
    {w : UnitAnalysis × DeclarationModule} (h : deliveries output d ws = .ok units) (hw : w ∈ ws)
    (hold : d.tree.standing (placeOf output w) ≠ .directory) : w.2.fileName ∈ moduleNames units := by
  induction ws generalizing units with
  | nil => cases hw
  | cons w' ws ih =>
    rw [deliveries] at h
    split at h
    · cases h
    cases hrest : deliveries output d ws with
    | error i => simp [hrest, Except.map] at h
    | ok rest =>
      rw [hrest, Except.map, Except.ok.injEq] at h
      have hmem : w ∈ ws → w.2.fileName ∈ moduleNames units := fun hw => by
        have hrest' := ih hrest hw
        rw [← h]
        split
        · exact hrest'
        · exact List.mem_cons_of_mem _ hrest'
      rcases List.mem_cons.mp hw with rfl | hw
      · rw [← h, if_neg hold]
        exact List.mem_cons.mpr (Or.inl (Path.name_child output w.2.fileName).symm)
      · exact hmem hw

/-- Removing stale modules, if modules are to be cleaned up at all. -/
theorem Pass.Does.clean (s : Settings) (habs : output.isAbsolute) (hdir : d.stands output = .directory)
    (keep : List String) :
    ∃ d', (if s.clean then ResponseShapes.removeStaleModules output keep else Pure.pure () : Pass Unit).Does d (.ok ()) d' ∧
      Disk.Regenerates output d d' ∧
      ∀ q, (s.clean = true ∧ StalePlace output keep q → d'.tree.standing q = (d.tree.standing q).removed) ∧
        (¬(s.clean = true ∧ StalePlace output keep q) → d'.tree.standing q = d.tree.standing q) := by
  by_cases hclean : s.clean = true
  · obtain ⟨d', hdoes, hregen, hset⟩ := Pass.Does.removeStaleModules habs hdir keep
    refine ⟨d', ?_, hregen, ?_⟩
    · rw [if_pos hclean]
      exact hdoes
    · simpa [hclean] using hset
  · refine ⟨d, ?_, .refl _ _ d, fun q => ⟨fun h => absurd h.1 hclean, fun _ => rfl⟩⟩
    rw [if_neg hclean]
    exact pure () d

section Scanning

variable {root : Path} {pattern : String} {found : FoundUnits}

/-- What scanning does with the sources that it lists. -/
def scanListed [Recovery] (s : Settings) (output : Path) (ps : List Path) : Pass (List DeclaredUnit) := do
  let found ← ps.foldlM (addUnit s output) { seen := [], declared := [] }
  if s.clean then removeStaleModules output (found.declared.map (·.module.name))
  return found.declared

theorem Pass.Does.scanListed_ok [Recovery]
    (hfold : (ps.foldlM (addUnit s output) { seen := [], declared := [] }).Does d (.ok found) d₁)
    (hclean : (if s.clean then ResponseShapes.removeStaleModules output (moduleNames found.declared)
      else Pure.pure () : Pass Unit).Does d₁ (.ok ()) d₂) : (scanListed s output ps).Does d (.ok found.declared) d₂ := by
  refine hfold.bind ?_
  by_cases h : s.clean = true
  · rw [if_pos h] at hclean ⊢
    exact hclean.bind (pure _ d₂)
  · rw [if_neg h] at hclean ⊢
    obtain ⟨-, rfl⟩ := hclean.unique (pure () d₁)
    exact pure _ d₂

theorem Pass.Does.scanUnits_error [Recovery] {i : Interruption}
    (hlist : (listSources root pattern s.excludePaths).Does d (.ok ps) d)
    (hfold : (ps.foldlM (addUnit s output) { seen := [], declared := [] }).Does d (.error i) d₁) :
    (scanUnits s root pattern output).Does d (.error i) d₁ :=
  hlist.bind hfold.bind_error

theorem Pass.Does.scanUnits_ok [Recovery] (hlist : (listSources root pattern s.excludePaths).Does d (.ok ps) d)
    (hfold : (ps.foldlM (addUnit s output) { seen := [], declared := [] }).Does d (.ok found) d₁)
    (hclean : (if s.clean then ResponseShapes.removeStaleModules output (moduleNames found.declared)
      else Pure.pure () : Pass Unit).Does d₁ (.ok ()) d₂) :
    (scanUnits s root pattern output).Does d (.ok found.declared) d₂ :=
  hlist.bind (scanListed_ok hfold hclean)

theorem map_nil_append (r : Except Interruption (List DeclaredUnit)) : r.map (([] : List DeclaredUnit) ++ ·) = r := by
  cases r <;> rfl

/-- Where the modules stand that were written and cleaned up, scanning the same sources comes to the same units and leaves
    what stands at every place. -/
theorem scanListed_settled [Recovery] {d₀ : Disk} {units : List DeclaredUnit} (habs : output.isAbsolute)
    (hunits : deliveries output d₀ (plannedModules s d [] ps) = .ok units)
    (hdelivered : Disk.Delivered output d₀ (plannedModules s d [] ps) d₁)
    (hset : ∀ q, (s.clean = true ∧ StalePlace output (moduleNames units) q →
        d₂.tree.standing q = (d₁.tree.standing q).removed) ∧
      (¬(s.clean = true ∧ StalePlace output (moduleNames units) q) → d₂.tree.standing q = d₁.tree.standing q))
    (hdir : d.stands output = .directory) (hplaces : ∀ q, output.HoldsModule q → d.tree.standing q = d₂.tree.standing q)
    (hsteady : ∀ p ∈ ps, d.Steady output p) :
    ∃ d', (scanListed s output ps).Does d (.ok units) d' ∧ Disk.Regenerates output d d' ∧
      ∀ q, d'.tree.standing q = d.tree.standing q := by
  generalize hws : plannedModules s d [] ps = ws at hunits hdelivered
  have hmodule : ∀ w ∈ ws, output.HoldsModule (placeOf output w) := fun w hw =>
    ⟨w.2.fileName, fileName_of_moduleOf? (moduleOf?_of_mem_planned (hws ▸ hw)), rfl⟩
  -- What was removed is no planned module, apart from directories, which stay.
  have hagree : ∀ w ∈ ws, d.tree.standing (placeOf output w) = d₁.tree.standing (placeOf output w) := fun w hw => by
    rw [hplaces _ (hmodule w hw)]
    by_cases hstale : s.clean = true ∧ StalePlace output (moduleNames units) (placeOf output w)
    · rw [(hset _).1 hstale]
      obtain ⟨name, -, hkeep, hplace⟩ := hstale.2
      obtain rfl : w.2.fileName = name := by simpa [placeOf] using hplace
      have hold : d₀.tree.standing (placeOf output w) = .directory := by
        by_contra hold
        exact hkeep (fileName_mem_of_deliveries hunits hw hold)
      rw [Standing.removed, if_pos ((hdelivered.directory_iff _).mpr hold)]
    · exact (hset _).2 hstale
  obtain ⟨r, d₃, hfold, hregen, hr, hdelivered₃⟩ :=
    foldlM_addUnit_open (s := s) habs hdir hsteady { seen := [], declared := [] }
  obtain ⟨hsame, hstay⟩ := hdelivered.again d hagree
  rw [hws] at hr hdelivered₃
  rw [map_nil_append, hsame, hunits] at hr
  cases r with
  | error i => cases hr
  | ok found =>
    obtain rfl : found.declared = units := Except.ok.inj hr
    obtain ⟨d₄, hclean, hregen₄, hset₄⟩ :=
      Pass.Does.clean s habs (hregen.stands_directory hdir) (moduleNames found.declared)
    refine ⟨d₄, .scanListed_ok hfold hclean, hregen.trans hregen₄, fun q => ?_⟩
    by_cases hstale : s.clean = true ∧ StalePlace output (moduleNames found.declared) q
    · have hmodule : output.HoldsModule q :=
        let ⟨name, hname, _, hq⟩ := hstale.2
        ⟨name, hname, hq⟩
      rw [(hset₄ q).1 hstale, hstay d₃ hdelivered₃, hplaces q hmodule, (hset q).1 hstale, Standing.removed_removed]
    · rw [(hset₄ q).2 hstale, hstay d₃ hdelivered₃]

/-- Scanning comes to a result and leaves files such that scanning the same sources again, at whatever time, comes to the
    same result and leaves what stands at every place. -/
theorem scanUnits_again [Recovery] (habs : output.isAbsolute)
    (hlist : (listSources root pattern s.excludePaths).Does d (.ok ps) d)
    (hsteady : ∀ p ∈ ps, d.Steady output p) :
    ∃ r d₁, (scanUnits s root pattern output).Does d r d₁ ∧ Disk.Regenerates output d d₁ ∧
      ∀ clock, (listSources root pattern s.excludePaths).Does (d₁.later clock) (.ok ps) (d₁.later clock) →
        ∃ d₂, (scanUnits s root pattern output).Does (d₁.later clock) r d₂ ∧
          ∀ q, d₂.tree.standing q = d₁.tree.standing q := by
  obtain ⟨r, d₁, hfold, hregen, hspec⟩ :=
    foldlM_addUnit (s := s) habs hsteady { seen := [], declared := [] }
  have hsteady₁ : ∀ p ∈ ps, d₁.Steady output p := fun p hp => (hsteady p hp).regenerates hregen
  simp only [map_nil_append] at hspec
  have hplanned : ∀ {d'}, Disk.Regenerates output d₁ d' → plannedModules s d' [] ps = plannedModules s d [] ps := fun h =>
    plannedModules_congr (fun p hp => (hsteady p hp).readText_eq (hregen.trans h)) []
  cases r with
  | error i =>
    refine ⟨.error i, d₁, .scanUnits_error hlist hfold, hregen, fun clock hlist₁ => ?_⟩
    obtain ⟨-, hr, -, -⟩ | ⟨hdir, d₀, hr, hdelivered⟩ := hspec
    · cases hr
    · have hlater : Disk.Regenerates output d₁ (d₁.later clock) := Disk.Regenerated.later (.refl _ _ d₁) clock
      obtain ⟨r₂, d₂, hfold₂, -, hr₂, hdelivered₂⟩ := foldlM_addUnit_open (s := s) habs
        (hlater.stands_directory hdir) (fun p hp => (hsteady₁ p hp).regenerates hlater) { seen := [], declared := [] }
      simp only [map_nil_append, hplanned hlater] at hr₂ hdelivered₂
      obtain ⟨hsame, hstay⟩ := hdelivered.again (d₁.later clock) fun _ _ => rfl
      rw [hsame, ← hr] at hr₂
      cases r₂ with
      | ok found => cases hr₂
      | error i₂ =>
        obtain rfl : i₂ = i := Except.error.inj hr₂
        exact ⟨d₂, .scanUnits_error hlist₁ hfold₂, hstay d₂ hdelivered₂⟩
  | ok found =>
    obtain ⟨hdir, hr, -, hagain⟩ | ⟨hdir, d₀, hr, hdelivered⟩ := hspec
    · -- There is no directory, so nothing was written and nothing is stale.
      have hclean : ∀ d : Disk, d.stands output ≠ .directory →
          (if s.clean then removeStaleModules output (moduleNames found.declared)
            else pure () : Pass Unit).Does d (.ok ()) d := fun d hdir => by
        split
        · exact .removeStaleModules_closed hdir _
        · exact .pure () d
      refine ⟨.ok found.declared, d₁, .scanUnits_ok hlist hfold (hclean d₁ hdir), hregen, fun clock hlist₁ => ?_⟩
      obtain ⟨r₂, hfold₂, hr₂⟩ := hagain clock
      cases r₂ with
      | error i => cases hr₂
      | ok found₂ =>
        have hdeclared : found₂.declared = found.declared := Except.ok.inj (hr₂.trans hr.symm)
        rw [← hdeclared] at hclean ⊢
        exact ⟨d₁.later clock, .scanUnits_ok hlist₁ hfold₂ (hclean _ hdir), fun _ => rfl⟩
    · obtain ⟨d₂, hclean, hregen₂, hset⟩ := Pass.Does.clean s habs hdir (moduleNames found.declared)
      refine ⟨.ok found.declared, d₂, .scanUnits_ok hlist hfold hclean, hregen.trans hregen₂, fun clock hlist₂ => ?_⟩
      have hlater : Disk.Regenerates output d₁ (d₂.later clock) := hregen₂.later clock
      rw [← hplanned hlater] at hr hdelivered
      obtain ⟨d₃, hagain, -, hstay⟩ := scanListed_settled habs hr.symm hdelivered hset (hlater.stands_directory hdir)
        (fun _ _ => rfl) (fun p hp => (hsteady₁ p hp).regenerates hlater)
      exact ⟨d₃, hlist₂.bind hagain, hstay⟩

/-- What is known once units were scanned. -/
def Progress.withScanned (k : Progress) : Except Interruption (List DeclaredUnit) → Progress
  | .ok units =>
    { k with
      declared := k.declared.putAll (units.map fun u => (u.unit, u))
      written := k.written ++ units.map (·.module) }
  | .error _ => k

/-- Generating declarations comes to the number of units whose modules were written. -/
theorem Pass.Reaches.generateDeclarations [Recovery] {r : Except Interruption (List DeclaredUnit)}
    (hscan : (scanUnits s root pattern output).Does d r d₁) (k : Progress) :
    (generateDeclarations s root pattern output).Reaches d k (r.map List.length) d₁ (k.withScanned r) := by
  cases r with
  | error i => exact (hscan.reaches k).bind_error
  | ok units => exact (hscan.reaches k).bind (learn_bind ((Pass.Does.say_bind _ _ _ (.pure units.length d₁)).reaches _))

end Scanning

end ResponseShapes
