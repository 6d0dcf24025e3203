import ResponseShapes.Proofs.Pass.Writes
import ResponseShapes.Proofs.Project.Path

/-! # Generating and wiring what is there

Where the modules stand as generating and wiring left them, and the sources have their texts, generating and wiring once
more write the same wiring and leave what stands at every other place (`Settings.Ran.rewires`). What else there is does
not matter, unlike in a second pass right behind the first one. -/

namespace ResponseShapes

variable {s : Settings} {root output p : Path} {ps : List Path} {name text : String} {d d₁ d' : Disk} {k k' : Progress}
  {modules made : List String → Prop}

/-- Where nothing is written and no directory is made, there stands what stood. -/
theorem Disk.Regenerated.standing_eq (h : Disk.Regenerated modules made d d') {q : List String}
    (hmade : made q → d.tree.standing q = .directory) (hq : ¬modules q) : d'.tree.standing q = d.tree.standing q := by
  cases hold : d.tree.standing q with
  | directory => exact h.directories q hold
  | file content => exact (h.others q hq content).mpr hold
  | nothing =>
    cases hnew : d'.tree.standing q with
    | nothing => rfl
    | file content =>
      rw [(h.others q hq content).mp hnew] at hold
      cases hold
    | directory =>
      rw [(h.new q hnew).elim id hmade] at hold
      cases hold

/-- What a path leads to is there as it was, if that is so of every place. -/
theorem Disk.Regenerated.stands_eq (h : Disk.Regenerated modules made d d')
    (hstay : ∀ q, d'.tree.standing q = d.tree.standing q) (hp : d.stands p ≠ .nothing) : d'.stands p = d.stands p := by
  obtain ⟨place, hplace, hstanding⟩ := exists_place_of_stands hp
  rw [stands_of_place (h.place_eq hplace), hstay, hstanding]

/-! ### Generating -/

/-- Below a path without two dots that leads to no directory there is nothing. -/
theorem Disk.standing_of_closed (habs : output.isAbsolute) (hdots : ".." ∉ output.parts)
    (hdir : d.stands output ≠ .directory) (name : String) : d.tree.standing (output.home ++ [name]) = .nothing := by
  by_contra hsome
  have hhome : d.tree.standing output.home = .directory := Tree.standing_of_append_cons hsome
  rw [Path.home, Path.withoutDots_of_no_dots hdots] at hhome
  refine hdir ((Disk.stands_of_standing habs hdots ?_).2.trans hhome)
  rw [hhome]
  exact Standing.noConfusion

/-- Where the modules stand as scanning left them, scanning sources with the same texts comes to the same units and leaves
    what stands at every place. -/
theorem scanListed_repeats [Recovery] {units : List DeclaredUnit} (habs : output.isAbsolute)
    (hdots : ".." ∉ output.parts)
    (hsteady : ∀ p ∈ ps, d.Steady output p) (hscan : (scanListed s output ps).Does d (.ok units) d₁)
    (hmakes : (d₁.makeDirectories output).2 = none) (hdir : d'.stands output = .directory)
    (hplaces : ∀ q, output.HoldsModule q → d'.tree.standing q = d₁.tree.standing q)
    (hsources : ∀ p ∈ ps, d'.Steady output p ∧ d'.readText p = d.readText p) :
    ∃ d₂, (scanListed s output ps).Does d' (.ok units) d₂ ∧ Disk.Regenerates output d' d₂ ∧
      ∀ q, d₂.tree.standing q = d'.tree.standing q := by
  have hplanned : plannedModules s d' [] ps = plannedModules s d [] ps := plannedModules_congr (fun p hp => (hsources p hp).2) []
  obtain ⟨r, d₀, hfold, -, hspec⟩ := foldlM_addUnit (s := s) habs hsteady { seen := [], declared := [] }
  simp only [map_nil_append] at hspec
  cases r with
  | error i => exact nomatch (hscan.unique hfold.bind_error).1
  | ok found =>
    obtain ⟨hclosed, hfound, hnone, -⟩ | ⟨hopen, d₂, hunits, hdelivered⟩ := hspec
    · -- There was no directory, so nothing was planned and nothing stood in it.
      have hclean : (if s.clean then removeStaleModules output (moduleNames found.declared)
          else pure () : Pass Unit).Does d₀ (.ok ()) d₀ := by
        split
        · exact .removeStaleModules_closed hclosed _
        · exact .pure () d₀
      obtain ⟨hresult, rfl⟩ := hscan.unique (.scanListed_ok hfold hclean)
      obtain rfl : units = [] := (Except.ok.inj hresult).trans (Except.ok.inj hfound)
      have hempty := hplanned.trans (hnone.resolve_right (not_not.mpr hmakes))
      have hnothing : ∀ q, StalePlace output (moduleNames []) q → d₁.tree.standing q = (d₁.tree.standing q).removed := by
        rintro _ ⟨name, -, -, rfl⟩
        rw [Disk.standing_of_closed habs hdots hclosed]
        rfl
      have hno : deliveries output d₁ (plannedModules s d' [] ps) = .ok [] := by rw [hempty]; rfl
      have hleft : Disk.Delivered output d₁ (plannedModules s d' [] ps) d₁ := fun place => by rw [hempty]; rfl
      exact scanListed_settled habs hno hleft (fun q => ⟨fun h => hnothing q h.2, fun _ => rfl⟩) hdir hplaces
        fun p hp => (hsources p hp).1
    · obtain ⟨d₃, hclean, -, hset⟩ := Pass.Does.clean s habs hopen (moduleNames found.declared)
      obtain ⟨hresult, rfl⟩ := hscan.unique (.scanListed_ok hfold hclean)
      obtain rfl := Except.ok.inj hresult
      rw [← hplanned] at hunits hdelivered
      exact scanListed_settled habs hunits.symm hdelivered hset hdir hplaces fun p hp => (hsources p hp).1

/-! ### Writing an output -/

/-- Writing an output leaves files where files were, and if its directory is there in the end then so is the text; if not,
    the directory cannot be made. -/
theorem Pass.writeOutput_leaves {x : Except Failure Bool} (habs : output.isAbsolute) (hname : name ≠ "..")
    (hwrite : (writeOutput (output.child name) text).Does d (.ok x) d₁) :
    (∀ q content, d.tree.standing q = .file content → ∃ content', d₁.tree.standing q = .file content') ∧
      (d₁.stands output = .directory ∨ (d₁.makeDirectories output).2 ≠ none) ∧
      (d₁.stands output = .directory → (d₁.tree.standing (output.home ++ [name])).fault? = none ∧
        (d₁.tree.standing (output.home ++ [name])).holding text.toList = d₁.tree.standing (output.home ++ [name])) := by
  have hholding : ∀ {st : Standing} {content}, st = .file content → ∃ content', st.holding text.toList = .file content' :=
    fun {st content} hst => by
      obtain ⟨h, -⟩ | ⟨h, -⟩ := st.holding_cases text.toList
      · exact ⟨content, h.trans hst⟩
      · exact ⟨_, h⟩
  by_cases hdir : d.stands output = .directory
  · cases hfault : (d.tree.standing (output.home ++ [name])).fault? with
    | some e => exact nomatch (hwrite.unique (writeOutput_fault habs hdir hname text hfault)).1
    | none =>
      obtain ⟨x', d₂, hdoes, hregen, -, hset⟩ : ∃ x d', Does (writeOutput (output.child name) text) d (.ok x) d' ∧
          Disk.Regenerated (· = output.home ++ [name]) output.OnTheWay d d' ∧ _ :=
        writeOutput_open (· = output.home ++ [name]) habs hdir hname rfl text hfault
      obtain ⟨-, rfl⟩ := hwrite.unique hdoes
      refine ⟨fun q content hfile => ?_, .inl (hregen.stands_directory hdir), fun _ => ?_⟩
      · rw [hset]
        split
        · exact hholding hfile
        · exact ⟨content, hfile⟩
      · rw [hset, if_pos rfl, Standing.holding_holding]
        exact ⟨Standing.fault?_holding hfault, rfl⟩
  · obtain ⟨d₂, failure, hmake⟩ := d.makeDirectories_spec (· = output.home ++ [name]) habs
    have hregen := (d.makeDirectoriesFrom_regenerated output.parts.length output).1
    rw [hmake.result] at hregen
    obtain ⟨x', d₃, hdoes, hfailed, hmade⟩ := writeOutput_closed output.OnTheWay habs hdir hname (by rfl) text hmake
    obtain ⟨-, rfl⟩ := hwrite.unique hdoes
    by_cases hfailure : failure = none
    · obtain ⟨hregen₁, -, hset⟩ := hmade hfailure
      refine ⟨fun q content hfile => ?_, .inl (hregen₁.stands_directory (hmake.success.mp hfailure)), fun _ => ?_⟩
      · have hfile₂ := (hregen.others q not_false content).mpr hfile
        rw [hset]
        split
        · rw [hfile₂, Standing.replaced, if_neg Standing.noConfusion]
          exact ⟨_, rfl⟩
        · exact ⟨content, hfile₂⟩
      · rw [hset, if_pos rfl, Standing.holding_replaced]
        exact ⟨Standing.fault?_replaced _ _, rfl⟩
    · obtain ⟨rfl, -⟩ := hfailed hfailure
      obtain ⟨e, rfl⟩ := Option.ne_none_iff_exists'.mp hfailure
      obtain ⟨e', hstuck⟩ := hmake.stuck habs d₁.clock
      have hresult : d₁.makeDirectories output = (d₁, some e') := hstuck.result
      refine ⟨fun q content hfile => ⟨content, (hregen.others q not_false content).mpr hfile⟩, .inr ?_, fun hthere => ?_⟩
      · rw [hresult]
        exact Option.some_ne_none e'
      · exact absurd (hmake.success.mpr hthere) hfailure

/-! ### Wiring -/

theorem Disk.readText_eq_of_stands (h : d'.stands p = d.stands p) (hsome : d.stands p ≠ .nothing) :
    d'.readText p = d.readText p := by
  cases hstands : d.stands p with
  | nothing => exact absurd hstands hsome
  | directory => rw [Disk.readText_of_directory hstands, Disk.readText_of_directory (h.trans hstands)]
  | file content => rw [Disk.readText_of_file hstands, Disk.readText_of_file (h.trans hstands)]

theorem wiringTable_congr [Recovery] (s : Settings) (declared : Entries DeclaredUnit)
    (h : ∀ p ∈ ps, d'.readText p = d.readText p) :
    wiringTable s d' declared ps = wiringTable s d declared ps := by
  unfold wiringTable
  generalize ({ declared, endpoints := [] } : LookupTable) = t
  induction ps generalizing t with
  | nil => rfl
  | cons p ps ih =>
    have hhead : withEndpointsAt s d' t p = withEndpointsAt s d t p := by
      rw [withEndpointsAt, h p List.mem_cons_self, withEndpointsAt]
    rw [List.foldl_cons, List.foldl_cons, hhead]
    exact ih (fun q hq => h q (List.mem_cons_of_mem _ hq)) _

theorem Disk.nodup_names (hd : d.tree.Proper) (p : Path) : (d.names p).Nodup := by
  have hentry := d.entry_cases p
  unfold names
  split at hentry <;> rename_i hstands
  · obtain ⟨e, hentry⟩ := hentry
    rw [hentry]
    exact List.nodup_nil
  · obtain ⟨time, children, hentry, hfind⟩ := hentry
    obtain ⟨place, hplace, -⟩ := exists_place_of_stands (by rw [hstands]; exact Standing.noConfusion)
    rw [hentry]
    exact (Tree.proper_directory.mp (hd.find? (hfind place hplace)).1).1
  · obtain ⟨time, hentry⟩ := hentry
    rw [hentry]
    exact List.nodup_nil

/-- The modules in a directory, by what stands at their places. -/
theorem mem_moduleEntries_of_directory (habs : output.isAbsolute) (hdir : d.stands output = .directory) :
    p ∈ moduleEntries d output ↔ ∃ name, d.tree.standing (output.home ++ [name]) ≠ .nothing ∧
      Text.endsWith name moduleSuffix = true ∧ p = output.child name := by
  obtain ⟨place, hplace, -⟩ := Disk.exists_place_of_stands (p := output) (by rw [hdir]; exact Standing.noConfusion)
  obtain rfl : place = output.home := Disk.place_eq habs hplace
  rw [mem_moduleEntries]
  simp only [Disk.mem_names_iff hplace]

theorem nodup_moduleEntries (hd : d.tree.Proper) (output : Path) : (moduleEntries d output).Nodup :=
  (Path.perm_sort _).nodup_iff.mpr
    (((Disk.nodup_names hd output).filter _).map fun _ _ => Path.child_injective)

/-- Where the modules stand as they stood, the same units are read back. -/
theorem loadedUnits_eq [Recovery] (s : Settings) (hd : d.tree.Proper) (hd' : d'.tree.Proper) (habs : output.isAbsolute)
    (hdots : ".." ∉ output.parts) (hdir : d'.stands output = .directory)
    (hplaces : ∀ q, output.HoldsModule q → d'.tree.standing q = d.tree.standing q) :
    loadedUnits s d' output = loadedUnits s d output := by
  have hmem := fun p => mem_moduleEntries_of_directory (p := p) habs hdir
  rw [loadedUnits, if_pos (Disk.hasDirectory_iff.mpr hdir), loadedUnits]
  by_cases hold : d.stands output = .directory
  case neg =>
    -- There are no modules, neither then nor now.
    have hnone : moduleEntries d' output = [] := List.eq_nil_iff_forall_not_mem.mpr fun p hp => by
      obtain ⟨name, hsome, hsuffix, -⟩ := (hmem p).mp hp
      rw [hplaces _ ⟨name, hsuffix, rfl⟩] at hsome
      exact hsome (Disk.standing_of_closed habs hdots hold name)
    rw [if_neg (mt Disk.hasDirectory_iff.mp hold), hnone, List.foldl_nil]
  have hmem₀ := fun p => mem_moduleEntries_of_directory (p := p) habs hold
  have hperm : (moduleEntries d' output).Perm (moduleEntries d output) := by
    refine (List.perm_ext_iff_of_nodup (nodup_moduleEntries hd' output) (nodup_moduleEntries hd output)).mpr fun p => ?_
    rw [hmem, hmem₀]
    refine exists_congr fun name => and_congr_left fun ⟨hsuffix, _⟩ => ?_
    rw [hplaces _ ⟨name, hsuffix, rfl⟩]
  have hsort : moduleEntries d' output = moduleEntries d output := Path.eq_of_perm (fun p hp => by
    obtain ⟨name, -, -, rfl⟩ := (hmem p).mp hp
    exact habs) hperm (Path.pairwise_sort _) (Path.pairwise_sort _)
  rw [hsort, if_pos (Disk.hasDirectory_iff.mpr hold)]
  refine List.foldl_ext _ _ _ fun units p hp => ?_
  obtain ⟨name, hsome, hsuffix, rfl⟩ := (hmem₀ p).mp hp
  obtain ⟨-, -, hplace'⟩ := Disk.place_output habs hdir (ne_dots_of_endsWith hsuffix)
  obtain ⟨-, -, hplace⟩ := Disk.place_output habs hold (ne_dots_of_endsWith hsuffix)
  have hstands : d'.stands (output.child name) = d.stands (output.child name) := by
    rw [Disk.stands_of_place hplace', Disk.stands_of_place hplace, hplaces _ ⟨name, hsuffix, rfl⟩]
  rw [← Disk.stands_of_place hplace] at hsome
  rw [withDeclaredAt, withDeclaredAt, declaredAt?, declaredAt?, Disk.readText_eq_of_stands hstands hsome]

/-! ### Both -/

/-- Generating comes to its end by scanning the sources that are listed. -/
theorem exists_of_generateIn [Recovery] {n : Nat} (habs : s.root.isAbsolute)
    (hlist : (listSources root s.servicePattern s.excludePaths).Does d (.ok ps) d)
    (h : (generateIn s root).Reaches d k (.ok n) d₁ k') : Disk.Regenerates s.declarationsDir d d₁ ∧ ∃ units,
      (scanListed s s.declarationsDir ps).Does d (.ok units) d₁ ∧ k' = k.withScanned (.ok units) := by
  obtain ⟨r, d₂, hscan, hregen⟩ := scanListed_writes s (s.isAbsolute_declarationsDir habs) ps d
  obtain ⟨hn, rfl, rfl⟩ := h.unique (.generateDeclarations (hlist.bind hscan) k)
  cases r with
  | error i => cases hn
  | ok units => exact ⟨hregen, units, hscan, rfl⟩

/-- Wiring comes to its end by writing the table of the sources that are listed. -/
theorem exists_of_wireIn [Recovery] {m : Nat} (habs : s.root.isAbsolute)
    (hlist : (listSources root s.controllerPattern s.excludePaths).Does d (.ok ps) d)
    (h : (wireIn s root).Reaches d k (.ok m) d₁ k') :
    Disk.Regenerated (· = s.outputRoot.home ++ [wiringFile]) s.outputRoot.OnTheWay d d₁ ∧
      ∃ x, (Pass.writeOutput (s.outputRoot.child wiringFile) (wiringText s s.outputRoot s.declarationsDir
        (wiringTable s d (unitsFor s d s.declarationsDir k) ps))).Does d (.ok x) d₁ := by
  obtain ⟨r, d₂, hwrite, hregen⟩ := Pass.writeOutput_writes (· = s.outputRoot.home ++ [wiringFile])
    (s.isAbsolute_outputRoot habs) (show wiringFile ≠ ".." by decide) rfl
    (wiringText s s.outputRoot s.declarationsDir (wiringTable s d (unitsFor s d s.declarationsDir k) ps)) d
  obtain ⟨written, hreaches⟩ := Pass.Reaches.generateWiring_ok (k := k) hlist rfl hwrite
  obtain ⟨hm, rfl, -⟩ := h.unique hreaches
  cases r with
  | error i => cases hm
  | ok x => exact ⟨hregen, x, hwrite⟩

/-- Generating and wiring from what is listed came to their ends. -/
structure Settings.Ran [Recovery] (s : Settings) (root : Path) (services controllers : List Path) (d d₁ d₂ : Disk)
    (k : Progress) :
    Prop where
  services : (listSources root s.servicePattern s.excludePaths).Does d (.ok services) d
  controllers : (listSources root s.controllerPattern s.excludePaths).Does d₁ (.ok controllers) d₁
  reaches : ∃ n m k₁ k₂, (generateIn s root).Reaches d k (.ok n) d₁ k₁ ∧ (wireIn s root).Reaches d₁ k₁ (.ok m) d₂ k₂

/-- No module is in the place of a directory on the way to the wiring. -/
theorem not_onTheWay_of_holdsModule {q : List String} (hdots : ".." ∉ s.outputRoot.parts)
    (hq : s.declarationsDir.HoldsModule q) : ¬s.outputRoot.OnTheWay q := by
  rintro ⟨n, rfl⟩
  obtain ⟨name, -, heq⟩ := hq
  rw [Path.withoutDots_of_no_dots fun h => hdots (List.mem_of_mem_take h), Path.home, Settings.declarationsDir,
    Path.child, Path.withoutDots_append_singleton _ (by decide), Path.withoutDots_of_no_dots hdots] at heq
  have hlength := congrArg List.length heq
  simp only [List.length_take, List.length_append, List.length_singleton] at hlength
  omega

/-- Where the modules stand as they were left, and the sources are listed and have their texts, generating leaves what
    stands at every place, and wiring writes the text that it wrote, if it can. -/
theorem Settings.Ran.rewires [Recovery] {root' : Path} {services controllers : List Path} {d d₁ d₂ d' : Disk}
    (h : s.Ran root services controllers d d₁ d₂ k) (habs : s.root.isAbsolute) (hdots : ".." ∉ s.outputRoot.parts)
    (hd : d.tree.Proper) (hd' : d'.tree.Proper) (hroot : d.tree.standing [] = .directory)
    (hmakes : (d₂.makeDirectories s.declarationsDir).2 = none) (hdir : d'.stands s.declarationsDir = .directory)
    (hmodules : ∀ q, s.declarationsDir.HoldsModule q → d'.tree.standing q = d₂.tree.standing q)
    (hsteady : ∀ p ∈ services, d.Steady s.declarationsDir p)
    (hservices : ∀ p ∈ services, d'.Steady s.declarationsDir p ∧ d'.readText p = d.readText p)
    (hcontrollers : ∀ p ∈ controllers, (∃ content, d'.stands p = .file content) ∧ d'.readText p = d₁.readText p)
    (hlist : (listSources root' s.servicePattern s.excludePaths).Does d' (.ok services) d')
    (hlist₁ : ∀ d'', Disk.Regenerates s.declarationsDir d' d'' → (∀ q, d''.tree.standing q = d'.tree.standing q) →
      (listSources root' s.controllerPattern s.excludePaths).Does d'' (.ok controllers) d'') :
    ∃ text : String, ((d₂.tree.standing (s.outputRoot.home ++ [wiringFile])).fault? = none ∧
        (d₂.tree.standing (s.outputRoot.home ++ [wiringFile])).holding text.toList =
          d₂.tree.standing (s.outputRoot.home ++ [wiringFile])) ∧
      ((d'.tree.standing (s.outputRoot.home ++ [wiringFile])).fault? = none →
        ∃ d₁' d₂', s.Ran root' services controllers d' d₁' d₂' k ∧ ∀ q, d₂'.tree.standing q =
          if q = s.outputRoot.home ++ [wiringFile] then (d'.tree.standing q).holding text.toList
          else d'.tree.standing q) := by
  have houtput := s.isAbsolute_declarationsDir habs
  have hwired := s.isAbsolute_outputRoot habs
  have hdots' : ".." ∉ s.declarationsDir.parts := by
    rw [Settings.declarationsDir, Path.child, List.mem_append, not_or]
    exact ⟨hdots, by decide⟩
  obtain ⟨n, m, k₁, k₂, hgenerate, hwire⟩ := h.reaches
  obtain ⟨hregen₁, units, hscan, rfl⟩ := exists_of_generateIn habs h.services hgenerate
  obtain ⟨hregen₂, x, hwrite⟩ := exists_of_wireIn habs h.controllers hwire
  obtain ⟨hfiles, hmade, hleft⟩ := Pass.writeOutput_leaves hwired (show wiringFile ≠ ".." by decide) hwrite
  -- What wiring leaves as generating left it.
  have hroot₁ := hregen₁.directories _ hroot
  have hopen := (Disk.makeDirectories_iff_open houtput (hregen₂.directories _ hroot₁)).mp hmakes
  have hmakes₁ : (d₁.makeDirectories s.declarationsDir).2 = none :=
    Disk.makeDirectories_of_open houtput hroot₁ fun q hq content hfile => by
      obtain ⟨content', hfile'⟩ := hfiles q content hfile
      exact hopen q hq content' hfile'
  have hwiredDir : d₂.stands s.outputRoot = .directory := hmade.resolve_right (not_not.mpr
    (Disk.makeDirectories_of_open hwired (hregen₂.directories _ hroot₁) fun q hq => hopen q (.of_parent (by
      rw [Settings.declarationsDir, Path.parent_child]
      exact hq))))
  have hmodules₁ : ∀ q, s.declarationsDir.HoldsModule q → d'.tree.standing q = d₁.tree.standing q := fun q hq => by
    rw [hmodules q hq, hregen₂.standing_eq (fun hway => absurd hway (not_onTheWay_of_holdsModule hdots hq))]
    rintro rfl
    obtain ⟨name, hname, heq⟩ := hq
    obtain rfl : wiringFile = name := by simpa using congrArg List.getLast? heq
    exact absurd hname (by decide)
  -- Generating again, and then wiring.
  obtain ⟨d₁', hscan', hregen', hstay⟩ := scanListed_repeats houtput hdots' hsteady hscan hmakes₁ hdir hmodules₁ hservices
  have hlist₁' := hlist₁ d₁' hregen' hstay
  have hunits : unitsFor s d₁' s.declarationsDir (k.withScanned (.ok units)) =
      unitsFor s d₁ s.declarationsDir (k.withScanned (.ok units)) := by
    unfold unitsFor
    rw [loadedUnits_eq s (hregen₁.proper hd) (hregen'.proper hd') houtput hdots' (hregen'.stands_directory hdir)
      fun q hq => (hstay q).trans (hmodules₁ q hq)]
  have htable : wiringTable s d₁' (unitsFor s d₁' s.declarationsDir (k.withScanned (.ok units))) controllers =
      wiringTable s d₁ (unitsFor s d₁ s.declarationsDir (k.withScanned (.ok units))) controllers := by
    rw [hunits]
    refine wiringTable_congr s _ fun p hp => ?_
    obtain ⟨⟨content, hfile⟩, hread⟩ := hcontrollers p hp
    have hsome : d'.stands p ≠ .nothing := by
      rw [hfile]
      exact Standing.noConfusion
    rw [Disk.readText_eq_of_stands (hregen'.stands_eq hstay hsome) hsome, hread]
  have hparent : d₁'.stands s.outputRoot = .directory := by
    have hparent := Disk.stands_parent (hregen'.stands_directory hdir)
    rw [Settings.declarationsDir, Path.parent_child] at hparent
    exact hparent
  refine ⟨_, hleft hwiredDir, fun hfault => ?_⟩
  rw [← hstay] at hfault
  have hwrites := @Pass.writeOutput_open _ _ _ s.outputRoot.OnTheWay (· = s.outputRoot.home ++ [wiringFile]) hwired hparent
    (show wiringFile ≠ ".." by decide) rfl (wiringText s s.outputRoot s.declarationsDir
      (wiringTable s d₁ (unitsFor s d₁ s.declarationsDir (k.withScanned (.ok units))) controllers)) hfault
  obtain ⟨x', d₂', hwrite', -, -, hset⟩ := hwrites
  obtain ⟨written, hwire'⟩ := Pass.Reaches.generateWiring_ok hlist₁' htable hwrite'
  refine ⟨d₁', d₂', ⟨hlist, hlist₁', _, _, _, _, .generateDeclarations (hlist.bind hscan') k, hwire'⟩, fun q => ?_⟩
  rw [hset, hstay]

end ResponseShapes
