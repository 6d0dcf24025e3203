import ResponseShapes.Pass.Project
import ResponseShapes.Proofs.Pass.Scan
import ResponseShapes.Proofs.Pass.Settings
import ResponseShapes.Proofs.Pass.Wiring

/-! # Passes over what cannot be read

A source that is no text is reported and skipped: what a pass comes to is what it comes to for the other sources alone
(`scanUnits_legible`, `wireIn_legible`). An output that is no text is not skipped: the pass that is to write it is
interrupted. So outputs have to be legible (`Disk.Legible`), and what a pass writes is (`Pass.Does.writeOutput_legible`). -/

namespace ResponseShapes

variable {s : Settings} {root output p : Path} {name : String} {modules made : List String → Prop} {d d' : Disk}

/-! ### Legible files -/

/-- The files at the places of modules are texts. -/
def Disk.Legible (modules : List String → Prop) (d : Disk) : Prop :=
  ∀ place, modules place → (d.tree.standing place).fault? = none

/-- What stands at a place to which nothing is written is still no file that is no text. -/
theorem Disk.Regenerated.fault?_eq_none (h : Disk.Regenerated modules made d d') {place : List String}
    (hother : ¬modules place) (hfault : (d.tree.standing place).fault? = none) : (d'.tree.standing place).fault? = none := by
  cases hstanding : d'.tree.standing place with
  | nothing => rfl
  | directory => rfl
  | file content => rwa [← (h.others place hother content).mp hstanding]

theorem Standing.fault?_removed {st : Standing} (h : st.fault? = none) : st.removed.fault? = none := by
  unfold removed
  split
  · exact h
  · rfl

/-- What an absolute path leads to, if it is no directory around, stands at the place of the path. -/
theorem Disk.fault?_stands (habs : output.isAbsolute) (hname : name ≠ "..")
    (h : (d.tree.standing (output.home ++ [name])).fault? = none) : (d.stands (output.child name)).fault? = none := by
  by_cases hdir : d.stands output = .directory
  · rwa [Disk.stands_of_place (Disk.place_output habs hdir hname).2.2]
  · cases hplace : d.place (output.child name) with
    | ok place => exact absurd (Disk.stands_of_place_child hplace) hdir
    | error cause => rw [Disk.stands, hplace]; rfl

/-- An output that is no file without a text is written, or that fails, and all else stays legible. -/
theorem Pass.Does.writeOutput_legible (modules : List String → Prop) (habs : output.isAbsolute) (hname : name ≠ "..")
    (hmodule : modules (output.home ++ [name])) (text : String) (hfault : (d.stands (output.child name)).fault? = none) :
    ∃ x d', Does (writeOutput (output.child name) text) d (.ok x) d' ∧ Disk.Regenerated modules output.OnTheWay d d' ∧
      ∀ place, (d.tree.standing place).fault? = none → (d'.tree.standing place).fault? = none := by
  by_cases hdir : d.stands output = .directory
  · rw [Disk.stands_of_place (Disk.place_output habs hdir hname).2.2] at hfault
    obtain ⟨x, d', hdoes, hregen, -, hset⟩ := writeOutput_open modules habs hdir hname hmodule text hfault
    refine ⟨x, d', hdoes, hregen, fun place hplace => ?_⟩
    rw [hset]
    split
    · exact Standing.fault?_holding hplace
    · exact hplace
  · -- Making the directory writes no file at all.
    obtain ⟨d₁, failure, hmake⟩ := d.makeDirectories_spec modules habs
    obtain ⟨d₁', failure', hmake'⟩ := d.makeDirectories_spec (fun _ => False) habs
    obtain ⟨rfl, rfl⟩ := Prod.mk.inj (hmake.result.symm.trans hmake'.result)
    have hkept : ∀ place, (d.tree.standing place).fault? = none → (d₁.tree.standing place).fault? = none :=
      fun place => hmake'.regenerated.fault?_eq_none not_false
    obtain ⟨x, d', hdoes, hfailed, hmade⟩ := writeOutput_closed output.OnTheWay habs hdir hname hmodule text hmake
    refine ⟨x, d', hdoes, ?_⟩
    by_cases hfailure : failure = none
    · obtain ⟨hregen, -, hset⟩ := hmade hfailure
      refine ⟨hmake.regenerated.trans hregen, fun place hplace => ?_⟩
      rw [hset]
      split
      · exact Standing.fault?_replaced _ _
      · exact hkept place hplace
    · obtain ⟨rfl, -⟩ := hfailed hfailure
      exact ⟨hmake.regenerated, hkept⟩

/-- A pass is interrupted by an output that is no text. -/
theorem Pass.Does.writeOutput_illegible (habs : output.isAbsolute) (hname : name ≠ "..") (text : String)
    {e : Text.EncodingError} (hfault : (d.stands (output.child name)).fault? = some e) :
    Does (writeOutput (output.child name) text) d (.error (.encoding e)) d := by
  have hdir : d.stands output = .directory := by
    cases hplace : d.place (output.child name) with
    | ok place => exact Disk.stands_of_place_child hplace
    | error cause =>
      rw [Disk.stands, hplace] at hfault
      cases hfault
  rw [Disk.stands_of_place (Disk.place_output habs hdir hname).2.2] at hfault
  exact writeOutput_fault habs hdir hname text hfault

/-! ### Sources that are skipped -/

/-- Whether there is a text at a path. -/
def Disk.reads (d : Disk) (p : Path) : Bool :=
  (d.readText p).isOk

/-- What is reported about a source that cannot be read. -/
def skippedRow (reporter : Reporter) (skipped : String) (p : Path) (e : TextError) : LogRow :=
  { level := .error, reporter, text := skipped ++ (Failure.source p ("unreadable source: " ++ e.message)).message }

/-- The row is about a source that cannot be read. -/
def Disk.SkippedAs (d : Disk) (reporter : Reporter) (skipped : String) (p : Path) (row : LogRow) : Prop :=
  ∃ e, d.readText p = .error e ∧ row = skippedRow reporter skipped p e

theorem Disk.exists_of_not_reads (h : d.reads p = false) : ∃ e, d.readText p = .error e := by
  unfold reads at h
  cases hread : d.readText p with
  | error e => exact ⟨e, rfl⟩
  | ok cs => rw [hread] at h; cases h

/-- A file that is no text is none of the legible modules, so it stays while these are written. -/
theorem Disk.Legible.readText_eq {content : List UInt8} (h : d.Legible modules) (hfile : d.stands p = .file content)
    (hreads : d.reads p = false) (hregen : Disk.Regenerated modules made d d') : d'.readText p = d.readText p := by
  have hread := Disk.readText_of_file hfile
  rw [Disk.readText_of_file (hregen.stands_file hfile fun place hplace hmodule => ?_), hread]
  have hfault := h place hmodule
  rw [← Disk.stands_of_place hplace, hfile, Standing.fault?] at hfault
  cases hdecode : Text.decode content with
  | ok cs =>
    rw [hdecode] at hread
    rw [Disk.reads, hread] at hreads
    cases hreads
  | error e =>
    rw [hdecode] at hfault
    cases hfault

/-! ### Generating -/

section Generating

variable {found : FoundUnits} {e : TextError}

theorem addUnit_unreadable [Recovery] (s : Settings) (output : Path) (found : FoundUnits)
    (hread : d.readText p = .error e) :
    (addUnit s output found p).Does d (.ok found) d ∧
      ∀ k, (addUnit s output found p).Tells d k (skippedRow .units "Skipping unit: " p e) := by
  have hsource := Pass.Does.readSource p d
  rw [hread] at hsource
  exact ⟨hsource.bind (Pass.Does.say_bind _ _ _ (.pure found d)),
    fun k => .behind (hsource.reaches k) (.say_bind _ _ _ (.pure found d))⟩

/-- Where all modules are legible, adding a unit comes to an end, and they still are. -/
theorem addUnit_legible [Recovery] (s : Settings) (habs : output.isAbsolute) (found : FoundUnits) (p : Path)
    (h : d.Legible output.HoldsModule) : ∃ found' d', (addUnit s output found p).Does d (.ok found') d' ∧
      Disk.Regenerates output d d' ∧ d'.Legible output.HoldsModule := by
  obtain hskip | ⟨a, hunit, hseen, hnone | ⟨m, hm⟩⟩ := source_cases s d found.seen p
  · exact ⟨_, d, .addUnit_skips hskip, .refl _ _ d, h⟩
  · exact ⟨_, d, .addUnit_none output hunit hseen hnone, .refl _ _ d, h⟩
  · have hname := fileName_of_moduleOf? hm
    obtain ⟨x, d', hwrite, hregen, hkept⟩ := Pass.Does.writeOutput_legible output.HoldsModule habs
      (ne_dots_of_endsWith hname) ⟨m.fileName, hname, rfl⟩ m.text
      (Disk.fault?_stands habs (ne_dots_of_endsWith hname) (h _ ⟨m.fileName, hname, rfl⟩))
    exact ⟨_, d', .addUnit_writes hunit hseen (.writeModule_ok hm hwrite), hregen,
      fun place hplace => hkept place (h place hplace)⟩

theorem addUnit_skips [Recovery] (s : Settings) (habs : output.isAbsolute) (hlegible : d.Legible output.HoldsModule)
    {content : List UInt8} (hfile : d.stands p = .file content) (ps : List Path) :
    Pass.Skips (addUnit s output) d.reads (d.SkippedAs .units "Skipping unit: ")
      (fun _ d' => Disk.Regenerates output d d' ∧ d'.Legible output.HoldsModule) p ps where
  skipped := by
    rintro hreads found d' ⟨hregen, hlegible'⟩
    have hread := hlegible.readText_eq hfile hreads hregen
    obtain ⟨e, he⟩ := Disk.exists_of_not_reads hreads
    obtain ⟨hdoes, htells⟩ := addUnit_unreadable s output found (hread.trans he)
    refine ⟨hdoes, ⟨hregen, hlegible'⟩, ?_⟩
    rintro k row ⟨e', he', rfl⟩
    obtain rfl : e = e' := Except.error.inj (he.symm.trans he')
    exact htells k
  kept := by
    rintro - found d' ⟨hregen, hlegible'⟩
    obtain ⟨found', d'', hdoes, hregen', hlegible''⟩ := addUnit_legible s habs found p hlegible'
    exact ⟨found', d'', hdoes, hregen.trans hregen', hlegible''⟩

/-- Removing stale modules leaves the others legible. -/
theorem clean_legible (s : Settings) (habs : output.isAbsolute) (keep : List String) (h : d.Legible output.HoldsModule) :
    ∃ d', (if s.clean then removeStaleModules output keep else pure () : Pass Unit).Does d (.ok ()) d' ∧
      Disk.Regenerates output d d' ∧ d'.Legible output.HoldsModule := by
  by_cases hdir : d.stands output = .directory
  · obtain ⟨d', hdoes, hregen, hset⟩ := Pass.Does.clean s habs hdir keep
    refine ⟨d', hdoes, hregen, fun place hplace => ?_⟩
    by_cases hstale : s.clean = true ∧ StalePlace output keep place
    · rw [(hset place).1 hstale]
      exact Standing.fault?_removed (h place hplace)
    · rw [(hset place).2 hstale]
      exact h place hplace
  · refine ⟨d, ?_, .refl _ _ d, h⟩
    split
    · exact .removeStaleModules_closed hdir keep
    · exact .pure () d

/-- Scanning comes to the units of the sources that can be read, and reports the others. -/
theorem scanUnits_legible [Recovery] (s : Settings) {ps : List Path} {pattern : String} (habs : output.isAbsolute)
    (hlist : (listSources root pattern s.excludePaths).Does d (.ok ps) d)
    (hfiles : ∀ p ∈ ps, ∃ content, d.stands p = .file content) (hlegible : d.Legible output.HoldsModule) :
    ∃ units d', (scanUnits s root pattern output).Does d (.ok units) d' ∧ Disk.Regenerates output d d' ∧
      d'.Legible output.HoldsModule ∧ (scanListed s output (ps.filter d.reads)).Does d (.ok units) d' ∧
      ∀ p ∈ ps, ∀ e, d.readText p = .error e → ∀ k,
        (scanUnits s root pattern output).Tells d k (skippedRow .units "Skipping unit: " p e) := by
  have hskips : ∀ p ps', p :: ps' <:+ ps → Pass.Skips (addUnit s output) d.reads
      (d.SkippedAs .units "Skipping unit: ") (fun _ d' => Disk.Regenerates output d d' ∧ d'.Legible output.HoldsModule)
      p ps' := fun p ps' hp => by
    obtain ⟨content, hfile⟩ := hfiles p (hp.mem List.mem_cons_self)
    exact addUnit_skips s habs hlegible hfile ps'
  have hstart : Disk.Regenerates output d d ∧ d.Legible output.HoldsModule := ⟨.refl _ _ d, hlegible⟩
  obtain ⟨found, d₁, hfold, ⟨hregen₁, hlegible₁⟩, hfilter⟩ := Pass.Skips.foldlM hskips { seen := [], declared := [] } hstart
  obtain ⟨d₂, hclean, hregen₂, hlegible₂⟩ := clean_legible s habs (moduleNames found.declared) hlegible₁
  refine ⟨found.declared, d₂, .scanUnits_ok hlist hfold hclean, hregen₁.trans hregen₂, hlegible₂,
    .scanListed_ok hfilter hclean, fun p hp e he k => ?_⟩
  have hreads : d.reads p = false := by rw [Disk.reads, he]; rfl
  have htells := Pass.Skips.tells_foldlM hskips { seen := [], declared := [] } hstart k hp hreads ⟨e, he, rfl⟩
  refine .behind (hlist.reaches k) (htells.bind (hfold.reaches k) ?_)
  rintro found' hfound
  obtain rfl := Except.ok.inj hfound
  by_cases hc : s.clean = true
  · rw [if_pos hc] at hclean ⊢
    exact ⟨_, _, _, (hclean.bind (.pure found.declared d₂)).reaches k⟩
  · rw [if_neg hc]
    exact ⟨_, _, _, (Pass.Does.pure _ d₁).reaches k⟩

end Generating

/-! ### Wiring -/

section Wiring

variable {declared : Entries DeclaredUnit} {ps : List Path} {e : TextError} [Recovery]

theorem withEndpointsAt_unreadable (s : Settings) (t : LookupTable) (h : d.reads p = false) : withEndpointsAt s d t p = t := by
  obtain ⟨e, he⟩ := Disk.exists_of_not_reads h
  rw [withEndpointsAt, he]

/-- The table is that of the sources that can be read. -/
theorem wiringTable_filter (s : Settings) (d : Disk) (declared : Entries DeclaredUnit) (ps : List Path) :
    wiringTable s d declared (ps.filter d.reads) = wiringTable s d declared ps := by
  unfold wiringTable
  generalize ({ declared, endpoints := [] } : LookupTable) = t
  induction ps generalizing t with
  | nil => rfl
  | cons p ps ih =>
    cases hreads : d.reads p with
    | true => rw [List.filter_cons_of_pos hreads, List.foldl_cons, List.foldl_cons, ih]
    | false =>
      rw [List.filter_cons_of_neg (by rw [hreads]; exact Bool.false_ne_true), List.foldl_cons,
        withEndpointsAt_unreadable s t hreads, ih]

theorem addEndpoints_skips (s : Settings) (d : Disk) (p : Path) (ps : List Path) :
    Pass.Skips (addEndpoints s) d.reads (d.SkippedAs .endpoints "Skipping endpoint unit: ") (fun _ d' => d' = d) p ps where
  skipped := by
    rintro hreads t d' rfl
    obtain ⟨e, he⟩ := Disk.exists_of_not_reads hreads
    have hsource := Pass.Does.readSource p d'
    rw [he] at hsource
    refine ⟨hsource.bind (Pass.Does.say_bind _ _ _ (.pure t d')), rfl, ?_⟩
    rintro k row ⟨e', he', rfl⟩
    obtain rfl : e = e' := Except.error.inj (he.symm.trans he')
    exact .behind (hsource.reaches k) (.say_bind _ _ _ (.pure t d'))
  kept := by
    rintro - t d' rfl
    exact ⟨_, _, .addEndpoints s t p d', rfl⟩

/-- Wiring comes to the table of the sources that can be read, and reports the others. -/
theorem wireIn_legible (habs : s.root.isAbsolute)
    (hlist : (listSources root s.controllerPattern s.excludePaths).Does d (.ok ps) d)
    (hfault : (d.stands (s.outputRoot.child wiringFile)).fault? = none) (k : Progress) :
    ∃ n d' k', (wireIn s root).Reaches d k (.ok n) d' k' ∧
      Disk.Regenerated (· = s.outputRoot.home ++ [wiringFile]) s.outputRoot.OnTheWay d d' ∧
      (∀ place, (d.tree.standing place).fault? = none → (d'.tree.standing place).fault? = none) ∧
      k'.table = wiringTable s d (unitsFor s d s.declarationsDir k) (ps.filter d.reads) ∧
      ∀ p ∈ ps, ∀ e, d.readText p = .error e →
        (wireIn s root).Tells d k (skippedRow .endpoints "Skipping endpoint unit: " p e) := by
  have htable := Pass.Does.scanEndpoints hlist (unitsFor s d s.declarationsDir k)
  obtain ⟨x, d', hwrite, hregen, hkept⟩ := Pass.Does.writeOutput_legible (· = s.outputRoot.home ++ [wiringFile])
    (s.isAbsolute_outputRoot habs) (show wiringFile ≠ ".." by decide) rfl
    (wiringText s s.outputRoot s.declarationsDir (wiringTable s d (unitsFor s d s.declarationsDir k) ps)) hfault
  obtain ⟨written, hreaches⟩ := Pass.Reaches.generateWiring_ok hlist rfl hwrite
  refine ⟨_, d', _, hreaches, hregen, hkept, (wiringTable_filter s d _ ps).symm, fun p hp e he => ?_⟩
  have hreads : d.reads p = false := by rw [Disk.reads, he]; rfl
  have htells : ∀ k', (scanEndpoints s root s.controllerPattern (unitsFor s d s.declarationsDir k)).Tells d k'
      (skippedRow .endpoints "Skipping endpoint unit: " p e) := fun k' =>
    .behind (hlist.reaches k') (Pass.Skips.tells_foldlM (fun p ps' _ => addEndpoints_skips s d p ps') _ rfl k' hp hreads
      ⟨e, he, rfl⟩)
  rw [wireIn, generateWiring_eq]
  refine .behind (.knownUnits s s.declarationsDir d k) ((htells _).bind (htable.reaches _) ?_)
  rintro t ht
  obtain rfl := Except.ok.inj ht
  obtain ⟨written', hwritten⟩ := Pass.Reaches.writeTable hwrite { k with declared := unitsFor s d s.declarationsDir k }
  exact ⟨_, _, _, hwritten⟩

/-- Wiring is interrupted if the sources cannot be listed or the wiring that is there is no text. -/
theorem wireIn_interrupted (habs : s.root.isAbsolute) {r : Except Interruption (List Path)}
    (hlist : (listSources root s.controllerPattern s.excludePaths).Does d r d)
    (h : (∃ i, r = .error i) ∨ ∃ e, (d.stands (s.outputRoot.child wiringFile)).fault? = some e) (k : Progress) :
    ∃ i k', (wireIn s root).Reaches d k (.error i) d k' := by
  cases r with
  | error i => exact ⟨i, _, .generateWiring_error s.outputRoot s.declarationsDir hlist k⟩
  | ok ps =>
    obtain ⟨e, hfault⟩ := h.resolve_left (by rintro ⟨i, hi⟩; cases hi)
    obtain ⟨written, hreaches⟩ := Pass.Reaches.generateWiring_ok hlist rfl
      (Pass.Does.writeOutput_illegible (s.isAbsolute_outputRoot habs) (show wiringFile ≠ ".." by decide) _ hfault)
    exact ⟨_, _, hreaches⟩

end Wiring

end ResponseShapes
