import ResponseShapes.Proofs.Declaration.LineEnds
import ResponseShapes.Proofs.Pass.Known
import ResponseShapes.Proofs.Pass.Modules
import ResponseShapes.Proofs.Pass.Repeat

/-! # Units that are read back from disk

What generating declared is not kept but read back from the modules when wiring starts anew. Every unit comes back with
its lookup object and its module, and its members come back with their declarations, but under the names that the keys
of the lookup object are read as (`generate_recovers`). These are the names of the members if the names are ASCII, and
only then do the units that are read back agree with the declared ones. -/

namespace ResponseShapes

open Syntax

variable {s : Settings} {output p : Path} {ps : List Path} {d d' d₁ : Disk} {found : FoundUnits} {u : DeclaredUnit}
  {origin : UnitAnalysis → Prop} {units : List DeclaredUnit} {a : UnitAnalysis} {m : DeclarationModule}
  {ws : List (UnitAnalysis × DeclarationModule)} {w : UnitAnalysis × DeclarationModule}

/-! ### Members -/

namespace UnitAnalysis

theorem memberMethods_once (seen : List String) (methods : List Method) :
    ((memberMethods seen methods).map (·.name)).Nodup ∧ ∀ m ∈ memberMethods seen methods, m.name ∉ seen := by
  induction methods generalizing seen with
  | nil => exact ⟨List.nodup_nil, List.forall_mem_nil _⟩
  | cons m methods ih =>
    unfold memberMethods
    split
    · rename_i hnew
      obtain ⟨honce, hfresh⟩ := ih (m.name :: seen)
      have hseen : m.name ∉ seen := by
        rw [Bool.and_eq_true, Bool.not_eq_true', ← Bool.not_eq_true, List.contains_iff_mem] at hnew
        exact hnew.2
      refine ⟨List.nodup_cons.mpr ⟨fun hmem => ?_, honce⟩, List.forall_mem_cons.mpr ⟨hseen, fun m' hm' => ?_⟩⟩
      · obtain ⟨m', hm', hname⟩ := List.mem_map.mp hmem
        exact hfresh m' hm' (hname ▸ List.mem_cons_self)
      · exact fun hmem => hfresh m' hm' (List.mem_cons_of_mem _ hmem)
    · exact ih seen

/-- No two members of a unit have one name. -/
theorem members_once {conventions : Conventions} {source : Source} {rows : List LogRow}
    (h : ofSource? conventions source p = some (a, rows)) : (a.members.map (·.name)).Nodup := by
  obtain ⟨c, -, hc⟩ := Option.map_eq_some_iff.mp h
  obtain rfl := congrArg Prod.fst hc
  rw [List.map_map]
  exact (memberMethods_once [] c.methods).1

end UnitAnalysis

/-! ### Units as they are read back -/

/-- The unit as it is read back from its module: with every member under the name that its key is read as. -/
def DeclaredUnit.reread (u : DeclaredUnit) : DeclaredUnit :=
  { u with members := Entries.ofList (u.members.map fun member => (ResponseShapes.reread member.1, member.2)) }

/-- What is known of modules, by their units. -/
def declaredEntries (output : Path) (ws : List (UnitAnalysis × DeclarationModule)) : Entries DeclaredUnit :=
  ws.map fun w => (w.1.unit, declaredBy output w)

theorem keyed_declaredEntries (output : Path) (honce : (ws.map (·.1.unit)).Nodup) : (declaredEntries output ws).Keyed := by
  rw [Entries.Keyed, Entries.keys, declaredEntries, List.map_map]
  exact honce

theorem members_declaredBy (output : Path) (honce : (w.1.members.map (·.name)).Nodup) :
    (declaredBy output w).members = w.1.members.map fun m => (m.name, m.declaration) := by
  refine Entries.ofList_of_keyed ?_
  rw [Entries.Keyed, Entries.keys, List.map_map]
  exact honce

theorem reread_declaredBy (output : Path) (honce : (w.1.members.map (·.name)).Nodup) :
    (declaredBy output w).reread = { unit := w.1.unit, lookup := w.2.lookup, module := output.child w.2.fileName
                                     members := Entries.ofList (w.1.members.map fun m => (reread m.name, m.declaration)) } := by
  rw [DeclaredUnit.reread, members_declaredBy output honce, List.map_map]
  rfl

/-- A unit whose members have names of word characters is read back as it was exactly if these names are ASCII. -/
theorem DeclaredUnit.reread_eq_iff (hkeyed : u.members.Keyed)
    (h : ∀ name ∈ u.members.keys, ∀ c ∈ name.toList, isWordPart c = true) :
    u.reread = u ↔ ∀ name ∈ u.members.keys, ∀ c ∈ name.toList, c.toNat ≤ 0x7E := by
  constructor
  · intro heq name hname
    -- The name is one that is read.
    rw [← congrArg DeclaredUnit.members heq, DeclaredUnit.reread, Entries.mem_keys_ofList, List.map_map, List.mem_map] at hname
    obtain ⟨member, hmember, rfl⟩ := hname
    exact ascii_reread (h member.1 (List.mem_map_of_mem hmember))
  · intro hascii
    have hsame : (u.members.map fun member => (ResponseShapes.reread member.1, member.2)) = u.members := by
      refine (List.map_congr_left fun member hmember => ?_).trans (List.map_id u.members)
      have hname : member.1 ∈ u.members.keys := List.mem_map_of_mem hmember
      rw [(ResponseShapes.reread_eq_iff (h _ hname)).mpr (hascii _ hname)]
      rfl
    rw [reread, hsame, Entries.ofList_of_keyed hkeyed]

/-! ### Modules that are read -/

theorem text?_of_has {text : List Char} {st : Standing} (hline : '\r' ∉ text) (h : st.Has text) : st.text? = some text := by
  rcases h with rfl | h
  · rw [Standing.text?_encode, Text.normalizeLineEnds_eq hline]
  · exact h

theorem Standing.Has.ne_nothing {text : List Char} {st : Standing} (h : st.Has text) : st ≠ .nothing := by
  rintro rfl
  rcases h with h | h <;> cases h

theorem Disk.readText_of_text? {text : List Char} (h : (d.stands p).text? = some text) : d.readText p = .ok text := by
  cases hstands : d.stands p with
  | nothing => rw [hstands] at h; cases h
  | directory => rw [hstands] at h; cases h
  | file content =>
    rw [hstands, Standing.text?] at h
    rw [Disk.readText_of_file hstands]
    cases hcontent : Text.decode content with
    | error e => rw [hcontent] at h; cases h
    | ok cs =>
      rw [hcontent] at h
      exact congrArg Except.ok (Option.some.inj h)

/-- From a place that has the text of a unit's module the unit is read back. -/
theorem declaredAt?_of_has [Recovery] (hm : moduleOf? s w.1 = some w.2) (honce : (w.1.members.map (·.name)).Nodup)
    (hdocs : s.documentation.Legible) (hsuffix : s.conventions.responseSuffix ≠ "")
    (h : LegibleUnit { responseSuffix := s.conventions.responseSuffix } w.1.unit w.1.members)
    (hhas : (d.stands (output.child w.2.fileName)).Has w.2.text.toList) :
    declaredAt? s d (output.child w.2.fileName) = some (declaredBy output w).reread := by
  have hread := Disk.readText_of_text? (text?_of_has (notMem_module hm hdocs h) hhas)
  rw [declaredAt?, hread, reread_declaredBy output honce]
  dsimp only
  rw [String.ofList_toList]
  exact readDeclaredUnit?_module hm hdocs hsuffix h _

/-! ### What cleaning up leaves -/

/-- Of the places of modules that are no declared units only directories are left when scanning comes to an end. -/
theorem removed_of_scanListed [Recovery] (habs : output.isAbsolute) (hclean : s.clean = true)
    (hscan : (scanListed s output ps).Does d (.ok units) d') (hdir : d'.stands output = .directory) {q : List String}
    (hq : StalePlace output (moduleNames units) q) : d'.tree.standing q = (d'.tree.standing q).removed := by
  obtain ⟨r, d₁, hfold, -⟩ := Pass.Writes.foldlM (fun found p (_ : p ∈ ps) => addUnit_writes s habs found p)
    { seen := [], declared := [] } d
  cases r with
  | error i => exact nomatch (hscan.unique hfold.bind_error).1
  | ok found =>
    by_cases hopen : d₁.stands output = .directory
    · obtain ⟨d₂, hcleaned, -, hset⟩ := Pass.Does.clean s habs hopen (moduleNames found.declared)
      obtain ⟨hresult, rfl⟩ := hscan.unique (.scanListed_ok hfold hcleaned)
      obtain rfl := Except.ok.inj hresult
      rw [(hset q).1 ⟨hclean, hq⟩, Standing.removed_removed]
    · have hcleaned : (if s.clean then removeStaleModules output (moduleNames found.declared)
          else pure () : Pass Unit).Does d₁ (.ok ()) d₁ := by
        rw [if_pos hclean]
        exact .removeStaleModules_closed hopen _
      obtain ⟨-, rfl⟩ := hscan.unique (.scanListed_ok hfold hcleaned)
      exact absurd hdir hopen

/-! ### Units that are loaded -/

theorem loadedUnits_of_directory [Recovery] (hdir : d.stands output = .directory) : loadedUnits s d output =
    Entries.ofList (((moduleEntries d output).filterMap (declaredAt? s d)).map fun u => (u.unit, u)) := by
  rw [loadedUnits, if_pos (Disk.hasDirectory_iff.mpr hdir), Entries.ofList, Entries.putAll, List.foldl_map, List.foldl_filterMap]
  refine congrArg (fun f => (moduleEntries d output).foldl f []) (funext fun units => funext fun p => ?_)
  rw [withDeclaredAt]
  cases declaredAt? s d p <;> rfl

namespace FoundUnits.Wrote

/-- A unit whose file no other one shares has the text of its module in it. -/
theorem has_of_apart (h : found.Wrote s output origin ws d) (habs : output.isAbsolute)
    (hapart : (ws.map fun w => Text.lower w.1.unit).Nodup) (hw : w ∈ ws) :
    (d.stands (output.child w.2.fileName)).Has w.2.text.toList := by
  obtain ⟨y, hlast⟩ := exists_lastOf hw
  obtain ⟨hy, hfile⟩ := mem_of_lastOf hlast
  rw [fileName_of_wrote h hy, fileName_of_wrote h hw, Naming.fileName_eq_iff] at hfile
  obtain rfl := List.inj_on_of_nodup_map hapart hy hw hfile
  obtain ⟨-, -, hplace⟩ := Disk.place_output habs (h.directory (List.ne_nil_of_mem hw))
    (ne_dots_of_endsWith (fileName_of_moduleOf? (h.emitted _ hw)))
  rw [Disk.stands_of_place hplace]
  exact h.stands _ _ hlast

/-- What is read back are the declared units, each as it is read back. -/
theorem mem_loaded [Recovery] (h : found.Wrote s output origin ws d) (habs : output.isAbsolute)
    (hdir : d.stands output = .directory)
    (hremoved : ∀ q, StalePlace output (moduleNames found.declared) q → d.tree.standing q = (d.tree.standing q).removed)
    (hread : ∀ w ∈ ws, declaredAt? s d (output.child w.2.fileName) = some (declaredBy output w).reread) :
    u ∈ (moduleEntries d output).filterMap (declaredAt? s d) ↔ ∃ w ∈ ws, u = (declaredBy output w).reread := by
  have hentries := fun p => mem_moduleEntries_of_directory (p := p) habs hdir
  rw [List.mem_filterMap]
  constructor
  · rintro ⟨p, hp, hu⟩
    obtain ⟨name, hsome, hsuffix, rfl⟩ := (hentries p).mp hp
    by_cases hname : name ∈ moduleNames found.declared
    · rw [moduleNames, h.declared, List.map_map] at hname
      obtain ⟨w, hw, rfl⟩ := List.mem_map.mp hname
      have hmodule : (declaredBy output w).module.name = w.2.fileName := Path.name_child output w.2.fileName
      rw [Function.comp_apply, hmodule, hread w hw] at hu
      exact ⟨w, hw, (Option.some.inj hu).symm⟩
    · -- A module that is no declared unit is a directory, and from it nothing is read.
      have hdirectory : d.tree.standing (output.home ++ [name]) = .directory := by
        by_contra hno
        have hleft := hremoved _ ⟨name, hsuffix, hname, rfl⟩
        rw [Standing.removed, if_neg hno] at hleft
        exact hsome hleft
      obtain ⟨-, -, hplace⟩ := Disk.place_output habs hdir (ne_dots_of_endsWith hsuffix)
      rw [← Disk.stands_of_place hplace] at hdirectory
      rw [declaredAt?, Disk.readText_of_directory hdirectory] at hu
      cases hu
  · rintro ⟨w, hw, rfl⟩
    refine ⟨output.child w.2.fileName, (hentries _).mpr ⟨w.2.fileName, ?_, ?_, rfl⟩, hread w hw⟩
    · obtain ⟨y, hlast⟩ := exists_lastOf hw
      exact (h.stands _ y hlast).ne_nothing
    · exact fileName_of_moduleOf? (h.emitted w hw)

end FoundUnits.Wrote

/-! ### Generating, and wiring anew -/

/-- Units of which no two have one name are found by their names. -/
theorem get?_declared_iff (h : ∀ u ∈ units, ∀ u' ∈ units, u.unit = u'.unit → u = u') {unit : String} :
    Entries.get? unit (Entries.ofList (units.map fun u => (u.unit, u))) = some u ↔ u ∈ units ∧ u.unit = unit := by
  rw [Entries.get?_ofList_iff]
  · constructor
    · intro hmem
      obtain ⟨u', hu', heq⟩ := List.mem_map.mp hmem
      obtain ⟨rfl, rfl⟩ := Prod.mk.inj heq
      exact ⟨hu', rfl⟩
    · rintro ⟨hu, rfl⟩
      exact List.mem_map_of_mem hu
  · intro e he e' he' hkey
    obtain ⟨u, hu, rfl⟩ := List.mem_map.mp he
    obtain ⟨u', hu', rfl⟩ := List.mem_map.mp he'
    rw [h u hu u' hu' hkey]

/-- The unit is that of a source with the text that the source has on the files `d`, unless the source is a module itself
    and may be written over. -/
def UnitAnalysis.FoundAmong [Recovery] (s : Settings) (d : Disk) (ps : List Path) (a : UnitAnalysis) : Prop :=
  ∃ p ∈ ps, ∃ text rows, UnitAnalysis.ofSource? s.conventions (Source.ofText text) p = some (a, rows) ∧
    (d.Steady s.declarationsDir p → d.readText p = .ok text.toList)

theorem foundAmong_of_unitAt? [Recovery] (hp : p ∈ ps) (hregen : Disk.Regenerates s.declarationsDir d d')
    (h : unitAt? s d' p = some a) : a.FoundAmong s d ps := by
  unfold unitAt? at h
  split at h
  case h_2 => cases h
  rename_i cs hread
  obtain ⟨⟨a', rows⟩, hsource, rfl⟩ := Option.map_eq_some_iff.mp h
  refine ⟨p, hp, String.ofList cs, rows, hsource, fun hsteady => ?_⟩
  rw [← hsteady.readText_eq hregen, hread, String.toList_ofList]

/-- The modules can be read back: no two units share a file, and each of them has plain names. -/
structure LegibleModules (s : Settings) (ws : List (UnitAnalysis × DeclarationModule)) : Prop where
  docs : s.documentation.Legible
  suffix : s.conventions.responseSuffix ≠ ""
  apart : (ws.map fun w => Text.lower w.1.unit).Nodup
  units : ∀ w ∈ ws, LegibleUnit { responseSuffix := s.conventions.responseSuffix } w.1.unit w.1.members

/-- The members of the unit have ASCII names. -/
def DeclaredUnit.Ascii (u : DeclaredUnit) : Prop :=
  ∀ name ∈ u.members.keys, ∀ c ∈ name.toList, c.toNat ≤ 0x7E

/-- Scanning declares units that are read back as they are read back, from what it leaves. -/
theorem scanListed_recovers [Recovery] (habs : s.root.isAbsolute) (hclean : s.clean = true)
    (hscan : (scanListed s s.declarationsDir ps).Does d (.ok units) d') :
    ∃ ws, units = ws.map (declaredBy s.declarationsDir) ∧ (ws.map (·.1.unit)).Nodup ∧
      (∀ w ∈ ws, moduleOf? s w.1 = some w.2 ∧ w.1.FoundAmong s d ps) ∧
      (LegibleModules s ws → ∀ unit, Entries.get? unit (loadedUnits s d' s.declarationsDir) =
        (Entries.get? unit (declaredEntries s.declarationsDir ws)).map DeclaredUnit.reread) := by
  have houtput := s.isAbsolute_declarationsDir habs
  have horigin : ∀ p ∈ ps, ∀ d', Disk.Regenerates s.declarationsDir d d' → ∀ a, unitAt? s d' p = some a →
      a.FoundAmong s d ps := fun p hp d' hregen a hunit => foundAmong_of_unitAt? hp hregen hunit
  obtain ⟨r, d₁, hwritten, hspec⟩ := scanListed_wrote houtput horigin
  obtain ⟨rfl, rfl⟩ := hwritten.unique hscan
  obtain ⟨found, ws, rfl, hwrote⟩ := hspec units rfl
  refine ⟨ws, hwrote.declared, hwrote.once, fun w hw => ⟨hwrote.emitted w hw, hwrote.analysed w hw⟩, fun hlegible unit => ?_⟩
  by_cases hdir : d₁.stands s.declarationsDir = .directory
  case neg =>
    -- There is no directory, so nothing was declared, and nothing is read.
    have hnone : ws = [] := by
      by_contra hne
      exact hdir (hwrote.directory hne)
    rw [loadedUnits, if_neg (mt Disk.hasDirectory_iff.mp hdir), hnone]
    rfl
  have hread : ∀ w ∈ ws, declaredAt? s d₁ (s.declarationsDir.child w.2.fileName) =
      some (declaredBy s.declarationsDir w).reread := fun w hw => by
    obtain ⟨p, -, text, rows, hsource, -⟩ := hwrote.analysed w hw
    exact declaredAt?_of_has (hwrote.emitted w hw) (UnitAnalysis.members_once hsource) hlegible.docs hlegible.suffix
      (hlegible.units w hw) (hwrote.has_of_apart houtput hlegible.apart hw)
  have hloaded := fun u => hwrote.mem_loaded (u := u) houtput hdir
    (fun q hq => removed_of_scanListed houtput hclean hscan hdir hq) hread
  have hback : ∀ u, Entries.get? unit (loadedUnits s d₁ s.declarationsDir) = some u ↔
      (∃ w ∈ ws, u = (declaredBy s.declarationsDir w).reread) ∧ u.unit = unit := fun u => by
    rw [loadedUnits_of_directory hdir, get?_declared_iff, hloaded]
    intro u hu u' hu' hunit
    obtain ⟨w, hw, rfl⟩ := (hloaded u).mp hu
    obtain ⟨w', hw', rfl⟩ := (hloaded u').mp hu'
    rw [List.inj_on_of_nodup_map hwrote.once hw hw' hunit]
  refine Option.ext fun u => ?_
  rw [hback, Option.map_eq_some_iff]
  constructor
  · rintro ⟨⟨w, hw, rfl⟩, rfl⟩
    exact ⟨declaredBy s.declarationsDir w, Entries.get?_of_mem (keyed_declaredEntries _ hwrote.once)
      (List.mem_map.mpr ⟨w, hw, rfl⟩), rfl⟩
  · rintro ⟨u', hu', rfl⟩
    obtain ⟨w, hw, heq⟩ := List.mem_map.mp (Entries.mem_of_get? hu')
    obtain ⟨rfl, rfl⟩ := Prod.mk.inj heq
    exact ⟨⟨w, hw, rfl⟩, rfl⟩

/-- Declared units whose modules can be read back agree with what is read back exactly if all members have ASCII names. -/
theorem recovered_iff [Recovery] (honce : (ws.map (·.1.unit)).Nodup) (hmade : ∀ w ∈ ws, w.1.FoundAmong s d ps)
    (hlegible : LegibleModules s ws) {loaded : Entries DeclaredUnit} (hloaded : ∀ unit, Entries.get? unit loaded =
      (Entries.get? unit (declaredEntries output ws)).map DeclaredUnit.reread) :
    (∀ unit, Entries.get? unit loaded = Entries.get? unit (declaredEntries output ws)) ↔
      ∀ u ∈ (declaredEntries output ws).values, u.Ascii := by
  have hself : ∀ w ∈ ws, (declaredBy output w).reread = declaredBy output w ↔ (declaredBy output w).Ascii := fun w hw => by
    obtain ⟨p, -, text, rows, hsource, -⟩ := hmade w hw
    have honce := UnitAnalysis.members_once hsource
    refine DeclaredUnit.reread_eq_iff ?_ ?_
    · rw [Entries.Keyed, Entries.keys, members_declaredBy output honce, List.map_map]
      exact honce
    · rw [Entries.keys, members_declaredBy output honce, List.map_map]
      exact List.forall_mem_map.mpr (hlegible.units w hw).members
  rw [Entries.values, declaredEntries, List.map_map, List.forall_mem_map, ← declaredEntries]
  constructor
  · intro hsame w hw
    have hget : Entries.get? w.1.unit (declaredEntries output ws) = some (declaredBy output w) :=
      Entries.get?_of_mem (keyed_declaredEntries output honce) (List.mem_map.mpr ⟨w, hw, rfl⟩)
    have hback := hsame w.1.unit
    rw [hloaded, hget] at hback
    exact (hself w hw).mp (Option.some.inj hback)
  · intro hascii unit
    rw [hloaded]
    cases hget : Entries.get? unit (declaredEntries output ws) with
    | none => rfl
    | some u =>
      obtain ⟨w, hw, heq⟩ := List.mem_map.mp (Entries.mem_of_get? hget)
      obtain ⟨rfl, rfl⟩ := Prod.mk.inj heq
      exact congrArg some ((hself w hw).mpr (hascii w hw))

theorem loadDeclaredUnits_run [Recovery] (s : Settings) (directory : Path) (σ : PassState) :
    ((loadDeclaredUnits s directory).run σ).1 = .ok (loadedUnits s σ.disk directory) :=
  ((Pass.Does.loadDeclaredUnits s directory σ.disk).reaches σ.progress).run.1

/-- If what is read back agrees with what is known, wiring may start anew. -/
theorem wire_anew [Recovery] {path : String} {σ : PassState} (hs : (projectSettings path).Does σ.disk (.ok s) σ.disk)
    (h : ∀ unit, Entries.get? unit (loadedUnits s σ.disk s.declarationsDir) = Entries.get? unit σ.progress.declared) :
    ((wire path).run { σ with progress := Progress.empty }).1 = ((wire path).run σ).1 ∧
      ((wire path).run { σ with progress := Progress.empty }).2.disk = ((wire path).run σ).2.disk := by
  refine wire_eq_of_units hs rfl fun unit => ?_
  have hnew : unitsFor s σ.disk s.declarationsDir Progress.empty = loadedUnits s σ.disk s.declarationsDir := by
    unfold unitsFor
    exact if_pos rfl
  rw [hnew, unitsFor]
  split
  · rfl
  · exact (h unit).symm

/-- What generating declares is read back, when wiring starts anew, unit by unit, with the members under the names that
    their keys are read as. So it agrees with what was declared exactly if all members have ASCII names, and wiring then
    comes to the same and leaves the same files as if it had gone on from what was declared. -/
theorem generate_recovers [Recovery] {σ : PassState} {path : String} {n : Nat}
    (hs : ((projectSettings path).run σ).1 = .ok s)
    (hclean : s.clean = true) (hfresh : σ.progress.declared = []) (hrun : ((generate path).run σ).1 = .ok n)
    (hlist : (listSources (searchedRoot s σ.disk) s.servicePattern s.excludePaths).Does σ.disk (.ok ps) σ.disk) :
    let shared := ((generate path).run σ).2
    let fresh := { shared with progress := Progress.empty }
    ∃ ws, shared.progress.declared = declaredEntries s.declarationsDir ws ∧
      (∀ w ∈ ws, moduleOf? s w.1 = some w.2 ∧ w.1.FoundAmong s σ.disk ps) ∧
      (LegibleModules s ws → ∃ loaded, ((loadDeclaredUnits s s.declarationsDir).run fresh).1 = .ok loaded ∧
        (∀ unit, Entries.get? unit loaded = (Entries.get? unit shared.progress.declared).map DeclaredUnit.reread) ∧
        ((∀ unit, Entries.get? unit loaded = Entries.get? unit shared.progress.declared) ↔
          ∀ u ∈ shared.progress.declared.values, u.Ascii) ∧
        ((∀ u ∈ shared.progress.declared.values, u.Ascii) → ((wire path).run fresh).1 = ((wire path).run shared).1 ∧
          ((wire path).run fresh).2.disk = ((wire path).run shared).2.disk)) := by
  have hdoes := projectSettings_of_run hs
  obtain ⟨habs, -⟩ := projectSettings_root hdoes
  obtain ⟨r, d₁, hscan, hregen⟩ := scanListed_writes s (s.isAbsolute_declarationsDir habs) ps σ.disk
  have hgenerate : (generate path).Reaches σ.disk σ.progress _ d₁ _ :=
    (hdoes.reaches _).bind (((Pass.Does.searchRoot s σ.disk).reaches _).bind (.generateDeclarations (hlist.bind hscan) σ.progress))
  obtain ⟨hresult, hdisk, hknown⟩ := hgenerate.run
  generalize ((generate path).run σ).2 = shared at hdisk hknown ⊢
  cases r with
  | error i => exact nomatch hrun.symm.trans hresult
  | ok units =>
    obtain ⟨ws, rfl, honce, hmade, hback⟩ := scanListed_recovers habs hclean hscan
    have hdeclared : shared.progress.declared = declaredEntries s.declarationsDir ws := by
      have hall : Entries.putAll [] ((ws.map (declaredBy s.declarationsDir)).map fun u => (u.unit, u)) =
          declaredEntries s.declarationsDir ws := by
        rw [List.map_map]
        exact Entries.ofList_of_keyed (keyed_declaredEntries _ honce)
      rw [hknown, Progress.withScanned, hfresh, hall]
    refine ⟨ws, hdeclared, hmade, fun hlegible => ?_⟩
    have hloaded := hback hlegible
    have hiff := recovered_iff honce (fun w hw => (hmade w hw).2) hlegible hloaded
    rw [hdeclared]
    refine ⟨loadedUnits s d₁ s.declarationsDir, ?_, hloaded, hiff, fun hascii => ?_⟩
    · rw [loadDeclaredUnits_run, hdisk]
    · refine wire_anew (s := s) ?_ ?_
      · rw [hdisk]
        exact projectSettings_regenerates hdoes hregen
      · rw [hdisk, hdeclared]
        exact hiff.mpr hascii

/-! ### A unit whose member has no ASCII name -/

namespace Accented

def serviceText : String := "export class UsersService \x7b größe() \x7b return \x7b id: 1 \x7d \x7d \x7d"

/-- A project with a single unit, whose member has an accented name. -/
def project : PassState :=
  { disk :=
      { tree := .directory 0 [("project", .directory 0 [("src", .directory 0
          [("users.service.ts", .file (Text.encode serviceText.toList) 0)])])]
        here := { root := "/", parts := [] }, clock := 1 }
    rows := [], progress := Progress.empty }

def settings : Settings :=
  Settings.standard { root := "/", parts := ["project"] }

def source : Path := { root := "/", parts := ["project", "src", "users.service.ts"] }

theorem lists_project : ((listSources (searchedRoot settings project.disk) settings.servicePattern settings.excludePaths).run
    project).1 = .ok [source] := by
  decide +kernel

theorem declared_project : ((generate "/project").run project).1 = .ok 1 ∧
    ((generate "/project").run project).2.progress.declared.values.map (·.members) =
      [[("größe", "UsersServiceGrößeResponse")]] := by
  decide +kernel

theorem steady_source : project.disk.Steady settings.declarationsDir source where
  file := ⟨Text.encode serviceText.toList, rfl⟩
  apart := fun place hplace hmodule => by
    obtain rfl : ["project", "src", "users.service.ts"] = place := Except.ok.inj hplace
    obtain ⟨name, hname, heq⟩ := hmodule
    obtain rfl : "users.service.ts" = name := by simpa using congrArg List.getLast? heq
    exact absurd hname (by decide)

theorem legible_documentation : settings.documentation.Legible where
  decorator := isWord_of_all (by decide +kernel) (by decide +kernel)
  module := List.all_iff_forall_prop.mp (by decide +kernel)
  comment := List.all_iff_forall_prop.mp (by decide +kernel)

/-- The names in what is found in the source are plain. -/
theorem legible_of_foundAmong {a : UnitAnalysis} (h : a.FoundAmong settings project.disk [source]) :
    LegibleUnit { responseSuffix := settings.conventions.responseSuffix } a.unit a.members := by
  obtain ⟨p, hp, text, rows, hsource, htext⟩ := h
  obtain rfl := List.mem_singleton.mp hp
  have hread : project.disk.readText source = .ok serviceText.toList := by decide +kernel
  obtain rfl := String.toList_injective (Except.ok.inj ((htext steady_source).symm.trans hread))
  have hnames : ∀ found ∈ UnitAnalysis.ofSource? settings.conventions (Source.ofText serviceText) source,
      found.1.unit ≠ "" ∧
      isPlainName (Naming.lookup { responseSuffix := settings.conventions.responseSuffix } found.1.unit) = true ∧
      (∀ d ∈ found.1.members.flatMap Member.blocks, isPlainName d.name = true ∧
        ∀ p ∈ d.properties, p.name.toList.getLast? ≠ some '\n') ∧
      ∀ m ∈ found.1.members, m.name.toList.all isWordPart = true := by
    decide +kernel
  obtain ⟨hnamed, hlookup, hblocks, hmembers⟩ := hnames _ hsource
  exact ⟨hnamed, hlookup, fun d hd => (hblocks d hd).1, fun d hd => (hblocks d hd).2,
    fun m hm => List.all_eq_true.mp (hmembers m hm)⟩

end Accented

/-- Wiring that starts anew finds the accented member under another name. -/
theorem generate_recovers_accented :
    ((projectSettings "/project").run Accented.project).1 = .ok Accented.settings ∧
    Accented.settings.clean = true ∧ Accented.project.progress.declared = [] ∧
    ((generate "/project").run Accented.project).1 = .ok 1 ∧
    let shared := ((generate "/project").run Accented.project).2
    ∃ loaded, ((loadDeclaredUnits Accented.settings Accented.settings.declarationsDir).run
        { shared with progress := Progress.empty }).1 = .ok loaded ∧
      (∀ unit, Entries.get? unit loaded = (Entries.get? unit shared.progress.declared).map DeclaredUnit.reread) ∧
      ¬∀ unit, Entries.get? unit loaded = Entries.get? unit shared.progress.declared := by
  obtain ⟨hrun, hmembers⟩ := Accented.declared_project
  have hs : ((projectSettings "/project").run Accented.project).1 = .ok Accented.settings := rfl
  obtain ⟨r, hlist⟩ := listSources_does (searchedRoot Accented.settings Accented.project.disk)
    Accented.settings.servicePattern Accented.settings.excludePaths Accented.project.disk
  obtain rfl := ((hlist.reaches Accented.project.progress).run (σ := Accented.project)).1.symm.trans Accented.lists_project
  obtain ⟨ws, hdeclared, hmade, hrecovers⟩ := generate_recovers hs rfl rfl hrun hlist
  obtain ⟨u, hvalues, hu⟩ := List.map_eq_singleton_iff.mp hmembers
  have hone : ∃ w, ws = [w] := by
    rw [hdeclared, declaredEntries, Entries.values, List.map_map] at hvalues
    obtain ⟨w, hw, -⟩ := List.map_eq_singleton_iff.mp hvalues
    exact ⟨w, hw⟩
  obtain ⟨w, rfl⟩ := hone
  obtain ⟨loaded, hloaded, hreread, hiff, -⟩ := hrecovers {
    docs := Accented.legible_documentation
    suffix := by decide
    apart := List.nodup_singleton _
    units := fun w hw => Accented.legible_of_foundAmong (hmade w hw).2 }
  refine ⟨hs, rfl, rfl, hrun, loaded, hloaded, hreread, fun hsame => ?_⟩
  have hascii : u.Ascii := hiff.mp hsame u (hvalues ▸ List.mem_singleton_self u)
  rw [DeclaredUnit.Ascii, hu] at hascii
  exact absurd (hascii "größe" List.mem_cons_self 'ö' (by decide)) (by decide)

end ResponseShapes
