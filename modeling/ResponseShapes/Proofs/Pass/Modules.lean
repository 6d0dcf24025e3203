import ResponseShapes.Proofs.Declaration.FileName
import ResponseShapes.Proofs.Pass.Scan
import ResponseShapes.Proofs.Pass.Writes

/-! # Units that share a module

Units are told apart by their names, and files by these names in small letters. So of the declared units with one file
only the last keeps its module: when scanning comes to an end, the file of a declared unit has the text of the last one
that was written there, and this is its own exactly if no later unit has the same name but for case
(`scanUnits_stand`). -/

namespace ResponseShapes

open Syntax

/-- The file that stands there has the text, or it did when it was read. -/
def Standing.Has (text : List Char) (st : Standing) : Prop :=
  st = .file (Text.encode text) ∨ st.text? = some text

theorem Standing.has_holding {text : List Char} {st : Standing} (h : st ≠ .directory) : (st.holding text).Has text := by
  obtain ⟨hsame, hdir | htext⟩ | ⟨hwritten, -⟩ := st.holding_cases text
  · exact absurd hdir h
  · exact Or.inr (hsame.symm ▸ htext)
  · exact Or.inl hwritten

theorem Standing.has_replaced {text : List Char} {st : Standing} (h : st ≠ .directory) : (st.replaced text).Has text := by
  rw [replaced, if_neg h]
  exact Or.inl rfl

theorem Standing.Has.writable {text : List Char} {st : Standing} (h : st.Has text) : st.fault? = none ∧ st ≠ .directory := by
  obtain rfl | htext := h
  · exact ⟨Standing.fault?_encode text, Standing.noConfusion⟩
  · cases st with
    | file content =>
      rw [Standing.text?] at htext
      refine ⟨?_, Standing.noConfusion⟩
      rw [Standing.fault?]
      cases hdecode : Text.decode content with
      | ok cs => rfl
      | error e =>
        rw [hdecode] at htext
        cases htext
    | nothing => cases htext
    | directory => cases htext

/-- The last module among those with a file name. -/
def lastOf (ws : List (UnitAnalysis × DeclarationModule)) (name : String) :
    Option (UnitAnalysis × DeclarationModule) :=
  ws.reverse.find? fun w => w.2.fileName = name

/-- The modules `ws` were written, each after its unit was seen, and of units as in `origin`: their units are the declared
    ones, and of those with one file the text of the last one stands there. -/
structure FoundUnits.Wrote (s : Settings) (output : Path) (origin : UnitAnalysis → Prop) (found : FoundUnits)
    (ws : List (UnitAnalysis × DeclarationModule)) (d : Disk) : Prop where
  declared : found.declared = ws.map (declaredBy output)
  seen : ∀ w ∈ ws, found.seen.has w.1.unit = true
  once : (ws.map (·.1.unit)).Nodup
  emitted : ∀ w ∈ ws, moduleOf? s w.1 = some w.2
  analysed : ∀ w ∈ ws, origin w.1
  directory : ws ≠ [] → d.stands output = .directory
  stands : ∀ name w, lastOf ws name = some w → (d.tree.standing (output.home ++ [name])).Has w.2.text.toList

variable {s : Settings} {output p : Path} {ps : List Path} {d d' d₁ d₂ : Disk} {a : UnitAnalysis} {m : DeclarationModule}
  {origin : UnitAnalysis → Prop} {found : FoundUnits} {seen : Entries Path} {ws : List (UnitAnalysis × DeclarationModule)} {units : List DeclaredUnit}
  {w x y : UnitAnalysis × DeclarationModule} {name : String}

/-! ### The last of several modules -/

theorem lastOf_concat : lastOf (ws ++ [w]) name = if w.2.fileName = name then some w else lastOf ws name := by
  unfold lastOf
  rw [List.reverse_append, List.reverse_singleton, List.singleton_append, List.find?_cons]
  split <;> simp_all

theorem mem_of_lastOf (h : lastOf ws name = some w) : w ∈ ws ∧ w.2.fileName = name :=
  ⟨List.mem_reverse.mp (List.mem_of_find?_eq_some h), by simpa using List.find?_some h⟩

theorem exists_lastOf (h : w ∈ ws) : ∃ y, lastOf ws w.2.fileName = some y :=
  Option.isSome_iff_exists.mp (List.find?_isSome.mpr ⟨w, List.mem_reverse.mpr h, by simp⟩)

/-- The last module with the file name of one of them is that one or stands behind it; it is that one if none behind it
    has its file name. -/
theorem lastOf_append {before after : List (UnitAnalysis × DeclarationModule)}
    (h : lastOf (before ++ w :: after) w.2.fileName = some y) :
    (y = w ∧ ∀ x ∈ after, x.2.fileName ≠ w.2.fileName) ∨ y ∈ after := by
  unfold lastOf at h
  rw [List.reverse_append, List.reverse_cons, List.append_assoc, List.find?_append, List.singleton_append,
    List.find?_cons] at h
  simp only [decide_true] at h
  cases hafter : after.reverse.find? fun x => x.2.fileName = w.2.fileName with
  | none =>
    rw [hafter] at h
    refine Or.inl ⟨(Option.some.inj h).symm, fun x hx => ?_⟩
    simpa using List.find?_eq_none.mp hafter x (List.mem_reverse.mpr hx)
  | some z =>
    rw [hafter] at h
    obtain rfl : z = y := Option.some.inj h
    exact Or.inr (List.mem_reverse.mp (List.mem_of_find?_eq_some hafter))

/-! ### What one source does -/

theorem exists_source_of_unitAt? [Recovery] (h : unitAt? s d p = some a) :
    ∃ text rows, UnitAnalysis.ofSource? s.conventions (Source.ofText text) p = some (a, rows) := by
  unfold unitAt? at h
  split at h
  · rename_i cs hread
    obtain ⟨⟨a', rows⟩, hsource, rfl⟩ := Option.map_eq_some_iff.mp h
    exact ⟨_, rows, hsource⟩
  · cases h

theorem has_put_of_has {seen : Entries Path} {unit key : String} (h : seen.has unit = true) (p : Path) :
    (seen.put key p).has unit = true := by
  rw [Entries.has_eq_isSome] at h ⊢
  rw [Entries.get?_put]
  split
  · rfl
  · exact h

theorem has_put_self {seen : Entries Path} (key : String) (p : Path) : (seen.put key p).has key = true := by
  rw [Entries.has_eq_isSome, Entries.get?_put_self]
  rfl

namespace FoundUnits.Wrote

theorem nil (s : Settings) (output : Path) (origin : UnitAnalysis → Prop) (d : Disk) :
    Wrote s output origin { seen := [], declared := [] } [] d where
  declared := rfl
  seen _ h := nomatch h
  once := List.nodup_nil
  emitted _ h := nomatch h
  analysed _ h := nomatch h
  directory h := absurd rfl h
  stands _ _ h := nomatch h

theorem see (h : found.Wrote s output origin ws d) (unit : String) (p : Path) :
    Wrote s output origin { found with seen := found.seen.put unit p } ws d :=
  { h with seen := fun w hw => has_put_of_has (h.seen w hw) p }

/-- Nothing else matters than what stands in the directory of the modules. -/
theorem congr (h : found.Wrote s output origin ws d) (hdir : d.stands output = .directory → d'.stands output = .directory)
    (hstay : ∀ w ∈ ws, d'.tree.standing (placeOf output w) = d.tree.standing (placeOf output w)) :
    found.Wrote s output origin ws d' :=
  { h with
    directory := fun hne => hdir (h.directory hne)
    stands := fun name w hw => by
      obtain ⟨hmem, rfl⟩ := mem_of_lastOf hw
      have hplace := hstay w hmem
      unfold placeOf at hplace
      rw [hplace]
      exact h.stands _ w hw }

/-- One more module is written. -/
theorem concat (h : found.Wrote s output origin ws d) (hseen : found.seen.has a.unit = false) (hm : moduleOf? s a = some m)
    (hsource : origin a) (hdir : d'.stands output = .directory)
    (hhere : (d'.tree.standing (placeOf output (a, m))).Has m.text.toList)
    (hothers : ∀ q, q ≠ placeOf output (a, m) → ws ≠ [] → d'.tree.standing q = d.tree.standing q) :
    Wrote s output origin { seen := found.seen.put a.unit p, declared := found.declared ++ [declaredBy output (a, m)] }
      (ws ++ [(a, m)]) d' where
  declared := by rw [h.declared, List.map_append, List.map_singleton]
  seen := by
    rw [List.forall_mem_append, List.forall_mem_singleton]
    exact ⟨fun w hw => has_put_of_has (h.seen w hw) p, has_put_self a.unit p⟩
  once := by
    rw [List.map_append, List.map_singleton, List.nodup_append]
    refine ⟨h.once, List.nodup_singleton _, fun unit hunit unit' hunit' heq => ?_⟩
    obtain ⟨w, hw, rfl⟩ := List.mem_map.mp hunit
    rw [List.mem_singleton.mp hunit'] at heq
    have := h.seen w hw
    rw [heq, hseen] at this
    cases this
  emitted := by
    rw [List.forall_mem_append, List.forall_mem_singleton]
    exact ⟨h.emitted, hm⟩
  analysed := by
    rw [List.forall_mem_append, List.forall_mem_singleton]
    exact ⟨h.analysed, hsource⟩
  directory _ := hdir
  stands name w hw := by
    rw [lastOf_concat] at hw
    split at hw
    · rename_i hname
      obtain rfl := Option.some.inj hw
      rw [← hname]
      exact hhere
    · rename_i hname
      have hne : output.home ++ [name] ≠ placeOf output (a, m) := fun heq =>
        hname (by simpa [placeOf] using heq.symm)
      rw [hothers _ hne (List.ne_nil_of_mem (mem_of_lastOf hw).1)]
      exact h.stands name w hw

end FoundUnits.Wrote

/-- One source keeps to it, or ends the pass. -/
theorem addUnit_wrote [Recovery] (habs : output.isAbsolute) (h : found.Wrote s output origin ws d)
    (horigin : ∀ a, unitAt? s d p = some a → origin a) :
    (∃ i d₁, (addUnit s output found p).Does d (.error i) d₁) ∨
      ∃ found₁ ws₁ d₁, (addUnit s output found p).Does d (.ok found₁) d₁ ∧ found₁.Wrote s output origin ws₁ d₁ := by
  obtain hskip | ⟨a, hunit, hseen, hnone | ⟨m, hm⟩⟩ := source_cases s d found.seen p
  · exact Or.inr ⟨found, ws, d, Pass.Does.addUnit_skips hskip, h⟩
  · exact Or.inr ⟨_, ws, d, Pass.Does.addUnit_none output hunit hseen hnone, h.see a.unit p⟩
  have hname := fileName_of_moduleOf? hm
  have hsource := horigin a hunit
  by_cases hdir : d.stands output = .directory
  · cases hfault : (d.tree.standing (placeOf output (a, m))).fault? with
    | some e =>
      have hwrite := Pass.writeOutput_fault habs hdir (ne_dots_of_endsWith hname) m.text hfault
      exact Or.inl ⟨_, d, Pass.Does.addUnit_writes hunit hseen (Pass.Does.writeModule_error hm hwrite)⟩
    | none =>
      obtain ⟨x, d₁, hwrite, hregen, hok, hset⟩ := Pass.writeOutput_open output.HoldsModule habs hdir
        (ne_dots_of_endsWith hname) ⟨m.fileName, hname, rfl⟩ m.text hfault
      change Disk.Regenerates output d d₁ at hregen
      change ∀ q, d₁.tree.standing q = if q = placeOf output (a, m) then _ else _ at hset
      have hdir₁ := hregen.stands_directory hdir
      cases hx : x.isOk with
      | true =>
        refine Or.inr ⟨_, ws ++ [(a, m)], d₁, Pass.Does.addUnit_writes hunit hseen (Pass.Does.writeModule_ok hm hwrite), ?_⟩
        rw [if_pos hx]
        refine h.concat hseen hm hsource hdir₁ ?_ fun q hq _ => (hset q).trans (if_neg hq)
        rw [hset, if_pos rfl]
        exact Standing.has_holding (hok.mp hx)
      | false =>
        refine Or.inr ⟨_, ws, d₁, Pass.Does.addUnit_failed hunit hseen hm hx hwrite,
          (h.see a.unit p).congr (fun _ => hdir₁) fun w _ => ?_⟩
        -- A directory stands in the place of the module, and it stays.
        have hold : d.tree.standing (placeOf output (a, m)) = .directory := by
          by_contra hold
          exact Bool.false_ne_true (hx.symm.trans (hok.mpr hold))
        rw [hset]
        split
        · rename_i hq
          rw [hq, hold]
          rfl
        · rfl
  · obtain rfl : ws = [] := by
      by_contra hne
      exact hdir (h.directory hne)
    obtain ⟨d₁, failure, hmake⟩ := d.makeDirectories_spec output.HoldsModule habs
    obtain ⟨x, d₂, hwrite, hfailed, hmade⟩ := Pass.writeOutput_closed output.OnTheWay habs hdir
      (ne_dots_of_endsWith hname) ⟨m.fileName, hname, rfl⟩ m.text hmake
    cases hx : x.isOk with
    | false =>
      refine Or.inr ⟨_, [], d₂, Pass.Does.addUnit_failed hunit hseen hm hx hwrite,
        (h.see a.unit p).congr (fun hdir' => absurd hdir' hdir) fun _ hw => nomatch hw⟩
    | true =>
      obtain rfl : failure = none := by
        by_contra hne
        exact Bool.false_ne_true ((hfailed hne).2.symm.trans hx)
      obtain ⟨hregen, hok, hset⟩ := hmade rfl
      change ∀ q, d₂.tree.standing q = if q = placeOf output (a, m) then _ else _ at hset
      refine Or.inr ⟨_, [(a, m)], d₂, Pass.Does.addUnit_writes hunit hseen (Pass.Does.writeModule_ok hm hwrite), ?_⟩
      rw [if_pos hx]
      refine h.concat hseen hm hsource (hregen.stands_directory (hmake.success.mp rfl)) ?_ fun q _ hne => absurd rfl hne
      rw [hset, if_pos rfl]
      exact Standing.has_replaced (hok.mp hx)

/-- Over files with texts every planned module is written. -/
theorem deliveries_of_has (h : ∀ w ∈ ws, ∃ text, (d.tree.standing (placeOf output w)).Has text) :
    deliveries output d ws = .ok (ws.map (declaredBy output)) := by
  induction ws with
  | nil => rfl
  | cons w ws ih =>
    obtain ⟨⟨text, htext⟩, hrest⟩ := List.forall_mem_cons.mp h
    obtain ⟨hfault, hdir⟩ := htext.writable
    rw [deliveries, hfault, ih hrest]
    exact congrArg Except.ok (if_neg hdir)

/-! ### What scanning leaves -/

/-- Sources keep to it, whatever modules are written before they are read. -/
theorem foldlM_addUnit_wrote [Recovery] (habs : output.isAbsolute) (h : found.Wrote s output origin ws d)
    (horigin : ∀ p ∈ ps, ∀ d', Disk.Regenerates output d d' → ∀ a, unitAt? s d' p = some a → origin a) :
    (∃ i d₁, (ps.foldlM (addUnit s output) found).Does d (.error i) d₁) ∨
      ∃ found₁ ws₁ d₁, (ps.foldlM (addUnit s output) found).Does d (.ok found₁) d₁ ∧ found₁.Wrote s output origin ws₁ d₁ := by
  induction ps generalizing found ws d with
  | nil => exact Or.inr ⟨found, ws, d, .pure found d, h⟩
  | cons p ps ih =>
    obtain ⟨hp, hps⟩ := List.forall_mem_cons.mp horigin
    obtain ⟨i, d₁, hhead⟩ | ⟨found₁, ws₁, d₁, hhead, h₁⟩ := addUnit_wrote habs h (hp d (.refl _ _ d))
    · exact Or.inl ⟨i, d₁, hhead.bind_error⟩
    · obtain ⟨r, d₁', hwrites, hregen⟩ := addUnit_writes s habs found p d
      obtain ⟨-, rfl⟩ := hhead.unique hwrites
      obtain ⟨i, d₂, hrest⟩ | ⟨found₂, ws₂, d₂, hrest, h₂⟩ := ih h₁ fun q hq d' hd' => hps q hq d' (hregen.trans hd')
      · exact Or.inl ⟨i, d₂, hhead.bind hrest⟩
      · exact Or.inr ⟨found₂, ws₂, d₂, hhead.bind hrest, h₂⟩

/-- The modules of declared units are not removed. -/
theorem clean_wrote (habs : output.isAbsolute) (h : found.Wrote s output origin ws d) :
    ∃ d', (if s.clean then removeStaleModules output (moduleNames found.declared)
      else pure () : Pass Unit).Does d (.ok ()) d' ∧ found.Wrote s output origin ws d' := by
  by_cases hdir : d.stands output = .directory
  · obtain ⟨d', hclean, hregen, hset⟩ := Pass.Does.clean s habs hdir (moduleNames found.declared)
    refine ⟨d', hclean, h.congr (fun _ => hregen.stands_directory hdir) fun w hw => (hset _).2 ?_⟩
    rintro ⟨-, name, -, hkeep, hplace⟩
    obtain rfl : w.2.fileName = name := by simpa [placeOf] using hplace
    refine hkeep (List.mem_map.mpr ⟨declaredBy output w, ?_, Path.name_child output w.2.fileName⟩)
    rw [h.declared]
    exact List.mem_map_of_mem hw
  · refine ⟨d, ?_, h⟩
    split
    · exact .removeStaleModules_closed hdir _
    · exact .pure () d

theorem scanListed_wrote [Recovery] (habs : output.isAbsolute)
    (horigin : ∀ p ∈ ps, ∀ d', Disk.Regenerates output d d' → ∀ a, unitAt? s d' p = some a → origin a) :
    ∃ r d', (scanListed s output ps).Does d r d' ∧
      ∀ units, r = .ok units → ∃ (found : FoundUnits) (ws : _), units = found.declared ∧ found.Wrote s output origin ws d' := by
  obtain ⟨i, d₁, hfold⟩ | ⟨found, ws, d₁, hfold, h₁⟩ := foldlM_addUnit_wrote habs (.nil s output origin d) horigin
  · exact ⟨.error i, d₁, hfold.bind_error, nofun⟩
  · obtain ⟨d₂, hclean, h₂⟩ := clean_wrote habs h₁
    exact ⟨_, d₂, .scanListed_ok hfold hclean, fun units hunits => ⟨found, ws, (Except.ok.inj hunits).symm, h₂⟩⟩

section Scanning

variable {root : Path} {pattern : String}

theorem scanUnits_wrote [Recovery] (s : Settings) (root : Path) (pattern : String) (habs : output.isAbsolute)
    (d : Disk) :
    ∃ r d', (scanUnits s root pattern output).Does d r d' ∧
      ∀ units, r = .ok units → ∃ (found : FoundUnits) (ws : _), units = found.declared ∧ found.Wrote s output
        (fun a => ∃ text p rows, UnitAnalysis.ofSource? s.conventions (Source.ofText text) p = some (a, rows)) ws d' := by
  obtain ⟨r, hlist⟩ := listSources_does root pattern s.excludePaths d
  cases r with
  | error i => exact ⟨.error i, d, hlist.bind_error, nofun⟩
  | ok ps =>
    have horigin : ∀ p ∈ ps, ∀ d', Disk.Regenerates output d d' → ∀ a, unitAt? s d' p = some a →
        ∃ text p rows, UnitAnalysis.ofSource? s.conventions (Source.ofText text) p = some (a, rows) := fun p _ d' _ a hunit =>
      let ⟨text, rows, hsource⟩ := exists_source_of_unitAt? hunit
      ⟨text, p, rows, hsource⟩
    obtain ⟨r, d', hscan, hwrote⟩ := scanListed_wrote habs horigin
    exact ⟨r, d', hlist.bind hscan, hwrote⟩

theorem fileName_of_wrote (h : found.Wrote s output origin ws d) (hw : w ∈ ws) :
    w.2.fileName = Naming.fileName w.1.unit :=
  DeclarationModule.fileName_of? (h.emitted w hw)

/-- Scanning declares units of different names, each with the module of its own analysis. Two of them have one file
    exactly if their names differ in case alone. In the end the file of a declared unit has the text of the last one
    among those with this file, which is the text of the unit exactly if no later one has the file. -/
theorem scanUnits_stand [Recovery] (habs : output.isAbsolute) {σ : PassState}
    (h : ((scanUnits s root pattern output).run σ).1 = .ok units) :
    ∃ ws, units = ws.map (declaredBy output) ∧ (ws.map (·.1.unit)).Nodup ∧
      (∀ w ∈ ws, moduleOf? s w.1 = some w.2 ∧
        ∃ text p rows, UnitAnalysis.ofSource? s.conventions (Source.ofText text) p = some (w.1, rows)) ∧
      (∀ w ∈ ws, ∀ x ∈ ws, (declaredBy output w).module = (declaredBy output x).module ↔
        Text.lower w.1.unit = Text.lower x.1.unit) ∧
      ∀ before w after, ws = before ++ w :: after → ∃ y ∈ w :: after, Text.lower y.1.unit = Text.lower w.1.unit ∧
        (((scanUnits s root pattern output).run σ).2.disk.stands (declaredBy output w).module).Has y.2.text.toList ∧
        (y.2.text = w.2.text ↔ ∀ x ∈ after, Text.lower x.1.unit ≠ Text.lower w.1.unit) := by
  obtain ⟨r, d', hscan, hwrote⟩ := scanUnits_wrote s root pattern habs σ.disk
  obtain ⟨hr, hd, -⟩ := (hscan.reaches σ.progress).run
  rw [hd]
  obtain ⟨found, ws, rfl, hwrote⟩ := hwrote units (hr.symm.trans h)
  have hname : ∀ {w x : UnitAnalysis × DeclarationModule}, w ∈ ws → x ∈ ws →
      (w.2.fileName = x.2.fileName ↔ Text.lower w.1.unit = Text.lower x.1.unit) := fun hw hx => by
    rw [fileName_of_wrote hwrote hw, fileName_of_wrote hwrote hx, Naming.fileName_eq_iff]
  refine ⟨ws, hwrote.declared, hwrote.once, fun w hw => ⟨hwrote.emitted w hw, hwrote.analysed w hw⟩, ?_, ?_⟩
  · intro w hw x hx
    rw [← hname hw hx]
    exact ⟨fun heq => Path.child_injective heq, fun heq => congrArg output.child heq⟩
  rintro before w after rfl
  have hw : w ∈ before ++ w :: after := List.mem_append_right _ List.mem_cons_self
  have hafter : ∀ {x}, x ∈ after → x ∈ before ++ w :: after := fun hx =>
    List.mem_append_right _ (List.mem_cons_of_mem w hx)
  obtain ⟨y, hlast⟩ := exists_lastOf hw
  have hhas := hwrote.stands _ y hlast
  obtain ⟨hy, hfile⟩ := mem_of_lastOf hlast
  -- The path of the module leads to its place.
  obtain ⟨-, -, hplace⟩ := Disk.place_output habs (hwrote.directory (List.ne_nil_of_mem hw))
    (ne_dots_of_endsWith (fileName_of_moduleOf? (hwrote.emitted w hw)))
  rw [← Disk.stands_of_place hplace] at hhas
  obtain ⟨rfl, hnone⟩ | hmem := lastOf_append hlast
  · exact ⟨y, List.mem_cons_self, rfl, hhas,
      iff_of_true rfl fun x hx heq => hnone x hx ((hname (hafter hx) hw).mpr heq)⟩
  · have hlower := (hname hy hw).mp hfile
    refine ⟨y, List.mem_cons_of_mem _ hmem, hlower, hhas, iff_of_false (fun htext => ?_) fun hnone => hnone y hmem hlower⟩
    have hunit := DeclarationModule.eq_of_text_eq (hwrote.emitted y hy) (hwrote.emitted w hw) hlower htext
    have honce := hwrote.once
    rw [List.map_append, List.map_cons, List.nodup_append, List.nodup_cons] at honce
    exact honce.2.1.1 (hunit ▸ List.mem_map_of_mem hmem)

end Scanning

/-! ### Two units whose names differ in case alone -/

/-- The places of sources that are found in order. -/
theorem listedSources_of_pairwise {top : Path} {pattern : String} {rules : List IgnoreRule}
    (hfind : (d.tree.find? top.parts).map (fun t => (sourcePlaces rules (Glob.ofString pattern) t).map fun place =>
      ({ root := top.root, parts := top.parts ++ place } : Path)) = some ps)
    (hsorted : ps.Pairwise fun p q => Path.le p q = true) : listedSources d top pattern rules = ps := by
  obtain ⟨t, ht, rfl⟩ := Option.map_eq_some_iff.mp hfind
  unfold listedSources
  rw [ht]
  exact List.mergeSort_of_pairwise hsorted

/-- Sources that are found in order are listed so. -/
theorem Pass.Does.listSources_of_pairwise {root : Path} {pattern : String} {exclude : List String}
    (hdir : d.tree.standing (d.resolve root).parts = .directory)
    (hfound : (rulesAt d (d.resolve root) exclude).map (fun rules => (d.tree.find? (d.resolve root).parts).map fun t =>
      (sourcePlaces rules (Glob.ofString pattern) t).map fun place =>
        ({ root := (d.resolve root).root, parts := (d.resolve root).parts ++ place } : Path)) = .ok (some ps))
    (hsorted : ps.Pairwise fun p q => Path.le p q = true) :
    (ResponseShapes.listSources root pattern exclude).Does d (.ok ps) d := by
  have hlist := Pass.Does.listSources hdir pattern exclude
  cases hrules : rulesAt d (d.resolve root) exclude with
  | error i => simp [hrules, Except.map] at hfound
  | ok rules =>
    rw [hrules] at hlist hfound
    rwa [Except.map, listedSources_of_pairwise (Except.ok.inj hfound) hsorted] at hlist

/-- Scanning comes to what comes of the sources that are listed. -/
theorem scanUnits_run_of_listed [Recovery] {root : Path} {pattern : String} {σ : PassState} (habs : output.isAbsolute)
    (hlist : (listSources root pattern s.excludePaths).Does σ.disk (.ok ps) σ.disk) :
    ((scanUnits s root pattern output).run σ).1 = ((scanListed s output ps).run σ).1 := by
  obtain ⟨r, d', hscan, -⟩ := scanListed_writes s habs ps σ.disk
  have hunits : (scanUnits s root pattern output).Does σ.disk r d' := hlist.bind hscan
  rw [((hunits.reaches σ.progress).run (σ := σ)).1, ((hscan.reaches σ.progress).run (σ := σ)).1]

namespace TwoUnits

/-- The source of a unit with one member. -/
def source (unit : String) : Tree :=
  .file (Text.encode ("export class " ++ unit ++ " \x7b find() \x7b return \x7b id: 1 \x7d \x7d \x7d").toList) 0

def project : PassState :=
  { disk :=
      { tree := .directory 0 [("project", .directory 0 [("src", .directory 0
          [("a.service.ts", source "UsersService"), ("b.service.ts", source "usersService")])])]
        here := { root := "/", parts := [] }, clock := 1 }
    rows := [], progress := Progress.empty }

def settings : Settings :=
  Settings.standard { root := "/", parts := ["project"] }

def sources : List Path :=
  ["a.service.ts", "b.service.ts"].map settings.sourceRoot.child

theorem listSources_project : (listSources settings.sourceRoot settings.servicePattern settings.excludePaths).Does
    project.disk (.ok sources) project.disk :=
  .listSources_of_pairwise (by decide) (by decide +kernel) (by decide)

def declared : List DeclaredUnit :=
  [("UsersService", "UsersServiceFindResponse"), ("usersService", "usersServiceFindResponse")].map fun
    (unit, declaration) =>
      { unit, lookup := unit ++ "Response", module := settings.declarationsDir.child "usersservice.response.ts"
        members := [("find", declaration)] }

theorem addUnit_project : (((addUnit settings settings.declarationsDir { seen := [], declared := [] }
    (settings.sourceRoot.child "a.service.ts")).run project).1.map fun found => (found.seen, found.declared)) =
      .ok ([("UsersService", settings.sourceRoot.child "a.service.ts")], declared.take 1) := by
  decide +kernel

theorem plannedModules_project : (plannedModules settings project.disk
    [("UsersService", settings.sourceRoot.child "a.service.ts")] [settings.sourceRoot.child "b.service.ts"]).map
      (declaredBy settings.declarationsDir) = declared.drop 1 := by
  decide +kernel

theorem steady_second : project.disk.Steady settings.declarationsDir (settings.sourceRoot.child "b.service.ts") where
  file := ⟨_, rfl⟩
  apart := fun place hplace hmodule => by
    obtain rfl : ["project", "src", "b.service.ts"] = place := Except.ok.inj hplace
    obtain ⟨name, hname, heq⟩ := hmodule
    obtain rfl : "b.service.ts" = name := by simpa using congrArg List.getLast? heq
    exact absurd hname (by decide)

/-- The declared units have one file. -/
theorem fileName_of_declared (h : declaredBy settings.declarationsDir w ∈ declared) :
    w.2.fileName = "usersservice.response.ts" := by
  have hmodule : ∀ u ∈ declared, u.module = settings.declarationsDir.child "usersservice.response.ts" := by decide +kernel
  exact Path.child_injective (hmodule _ h)

/-- The module of the first unit is written where none was. -/
theorem addUnit_first : ∃ found d, (addUnit settings settings.declarationsDir { seen := [], declared := [] }
      (settings.sourceRoot.child "a.service.ts")).Does project.disk (.ok found) d ∧
    Disk.Regenerates settings.declarationsDir project.disk d ∧
    found.seen = [("UsersService", settings.sourceRoot.child "a.service.ts")] ∧ found.declared = declared.take 1 ∧
    d.stands settings.declarationsDir = .directory ∧
    ∃ text, (d.tree.standing (settings.declarationsDir.home ++ ["usersservice.response.ts"])).Has text := by
  have habs : settings.declarationsDir.isAbsolute := by decide
  have hrun := addUnit_project
  obtain ⟨r, d, hfirst, hregen⟩ := addUnit_writes settings habs { seen := [], declared := [] }
    (settings.sourceRoot.child "a.service.ts") project.disk
  rw [((hfirst.reaches project.progress).run (σ := project)).1] at hrun
  obtain ⟨i, d', hwrote⟩ | ⟨found, ws, d', hwrote, hfound⟩ :=
    addUnit_wrote habs (.nil settings _ (fun _ => True) project.disk) (p := settings.sourceRoot.child "a.service.ts")
      fun _ _ => trivial
  · obtain ⟨rfl, -⟩ := hfirst.unique hwrote
    cases hrun
  · obtain ⟨rfl, rfl⟩ := hfirst.unique hwrote
    obtain ⟨hseen, hdeclared⟩ := Prod.mk.inj (Except.ok.inj hrun)
    obtain ⟨w, rest, rfl, hw, hrest⟩ := List.map_eq_cons_iff.mp (hfound.declared.symm.trans hdeclared)
    obtain rfl := List.map_eq_nil_iff.mp hrest
    obtain ⟨y, hlast⟩ := exists_lastOf (List.mem_singleton_self w)
    have hhas := hfound.stands _ y hlast
    rw [fileName_of_declared (hw ▸ List.mem_cons_self)] at hhas
    exact ⟨found, d, hfirst, hregen, hseen, hdeclared, hfound.directory (List.cons_ne_nil w []), _, hhas⟩

/-- The module of the second unit is written over that of the first, whatever its text is. -/
theorem scanListed_project :
    ((scanListed settings settings.declarationsDir sources).run project).1 = .ok declared := by
  have habs : settings.declarationsDir.isAbsolute := by decide
  have hplanned := plannedModules_project
  obtain ⟨found, d₁, hfirst, hregen₁, hseen, hdeclared, hdir, text, hhas⟩ := addUnit_first
  obtain ⟨r, d₂, hsecond, hregen₂, hresult, -⟩ := foldlM_addUnit_open (s := settings) habs hdir
    (List.forall_mem_singleton.mpr (steady_second.regenerates hregen₁)) found
  rw [plannedModules_congr (List.forall_mem_singleton.mpr (steady_second.readText_eq hregen₁)), hseen,
    deliveries_of_has, hplanned, hdeclared] at hresult
  · cases r with
    | error i => cases hresult
    | ok found₂ =>
      obtain ⟨d₃, hclean, -⟩ := Pass.Does.clean settings habs (hregen₂.stands_directory hdir) (moduleNames found₂.declared)
      have hscan : (scanListed settings settings.declarationsDir sources).Does project.disk (.ok found₂.declared) d₃ :=
        .scanListed_ok (hfirst.bind hsecond) hclean
      rw [((hscan.reaches project.progress).run (σ := project)).1]
      exact hresult
  · intro w hw
    have hmem : declaredBy settings.declarationsDir w ∈ declared.drop 1 := hplanned ▸ List.mem_map_of_mem hw
    rw [placeOf, fileName_of_declared (List.mem_of_mem_drop hmem)]
    exact ⟨text, hhas⟩

theorem scanUnits_project : ((scanUnits settings settings.sourceRoot settings.servicePattern
    settings.declarationsDir).run project).1 = .ok declared :=
  (scanUnits_run_of_listed (by decide) listSources_project).trans scanListed_project

/-- The module of the first unit is not that of its own analysis. -/
theorem scanUnits_overwritten : settings.declarationsDir.isAbsolute ∧
    ((scanUnits settings settings.sourceRoot settings.servicePattern settings.declarationsDir).run project).1 =
      .ok declared ∧
    ∃ w x y, declared = [w, x].map (declaredBy settings.declarationsDir) ∧
      (((scanUnits settings settings.sourceRoot settings.servicePattern settings.declarationsDir).run project).2.disk.stands
        (declaredBy settings.declarationsDir w).module).Has y ∧ y ≠ w.2.text.toList := by
  have hunits := scanUnits_project
  obtain ⟨ws, hws, -, -, -, hstand⟩ := scanUnits_stand (by decide) hunits
  obtain ⟨w, rest, rfl, hw, hrest⟩ := List.map_eq_cons_iff.mp hws.symm
  obtain ⟨x, none, rfl, hx, hnone⟩ := List.map_eq_cons_iff.mp hrest
  obtain rfl := List.map_eq_nil_iff.mp hnone
  obtain ⟨y, -, -, hhas, hown⟩ := hstand [] w [x] rfl
  refine ⟨by decide, hunits, w, x, _, hws, hhas, fun htext => ?_⟩
  refine hown.mp (String.toList_injective htext) x (List.mem_singleton_self x) ?_
  have hwname : w.1.unit = "UsersService" := congrArg DeclaredUnit.unit hw
  have hxname : x.1.unit = "usersService" := congrArg DeclaredUnit.unit hx
  rw [hwname, hxname]
  decide

end TwoUnits

end ResponseShapes
