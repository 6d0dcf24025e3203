import ResponseShapes.Proofs.Edit.Ascending
import ResponseShapes.Proofs.Marker.Apart
import ResponseShapes.Proofs.Marker.Bound

/-! # New names are bound

The imports of a source are edited so that every name that new decorators use is bound in the end (`Plan.needs_met`).
Each import is edited where it stands, as what it lists changes (`ImportChange.Edited`), and the lines for names that
cannot be listed in one of them are put in among the imports (`Inserted`). Told from the first to the last, the text is
that of before with the imports in their places and the new lines behind the one that they follow. -/

namespace ResponseShapes

open Syntax

variable {c : Settings} {docs : Documentation} {needs : ImportNeeds} {s : Source} {lines : List String} {k : Nat}
  {x y : Import × ImportChange} {e f : Edit Char} {front back : List (List (Edit Char))} {insertion : List (Edit Char)}

/-! ### What is done to one import -/

/-- The edits that an import undergoes where it stands. One that lists nothing any more is taken away with the padding
    behind it, and one that lists other names is written anew from the same module. -/
inductive ImportChange.Edited (s : Source) (i : Import) : ImportChange → List (Edit Char) → Prop
  | kept : Edited s i .kept []
  | removed {e : Edit Char} (start_eq : e.start = i.node.start) (le_stop : i.node.stop ≤ e.stop)
      (padding : ∀ k, i.node.stop ≤ k → k < e.stop → (s.text[k]?.any isPadding) = true) (replacement_eq : e.replacement = []) :
      Edited s i .removed [e]
  | relisted {specifiers : List String} {module closing : String}
      (hmodule : module = ((i.node.child? .source).map s.textOf).getD ("'" ++ i.source ++ "'"))
      (hclosing : closing = "" ∨ closing = ";") :
      Edited s i (.relisted specifiers)
        [{ start := i.node.start, stop := i.node.stop
           replacement := ("import \x7b " ++ String.intercalate ", " specifiers ++ " \x7d from " ++ module ++ closing).toList }]

theorem edited_changeEdit (s : Source) (i : Import) (change : ImportChange) :
    change.Edited s i (changeEdit? s i change).toList := by
  cases change with
  | kept => exact .kept
  | removed =>
    by_cases hlen : i.node.stop ≤ s.text.length
    · cases lineRemoval_at (s := s) hlen with
      | across start_eq le_stop _ padding => exact .removed start_eq le_stop padding rfl
      | behind start_eq stop_eq =>
        refine .removed rfl (Nat.le_of_eq stop_eq.symm) (fun k h h' => ?_) rfl
        omega
    · have hstop : (lineRemoval s i.node).stop = i.node.stop := by
        simp [lineRemoval, List.drop_eq_nil_of_le (Nat.le_of_not_le hlen)]
      refine .removed rfl (Nat.le_of_eq hstop.symm) (fun k h h' => ?_) rfl
      omega
  | relisted specifiers =>
    have htext : relistedText s i specifiers = ("import \x7b " ++ String.intercalate ", " specifiers ++ " \x7d from " ++
        ((i.node.child? .source).map s.textOf).getD ("'" ++ i.source ++ "'") ++
          if (Text.dropEndWhile Text.isBlank (s.charsOf i.node)).getLast? = some ';' then ";" else "").toList := by
      unfold relistedText
      split <;> simp [*]
    rw [changeEdit?, htext]
    refine .relisted rfl ?_
    split
    · exact .inr rfl
    · exact .inl rfl

/-! ### The text with all imports edited -/

/-- The edits of the imports: those of the imports ahead of the new lines, those that put in the lines, and those of the
    imports behind them. On a tree that is laid over the text they make the text with all of them in their places. -/
structure ImportsEdited (docs : Documentation) (s : Source) (lines : List String) (changes : List (Import × ImportChange))
    (edits : List (Edit Char)) (front : List (List (Edit Char))) (insertion : List (Edit Char))
    (back : List (List (Edit Char))) : Prop where
  changed : List.Forall₂ (fun x es => x.2.Edited s x.1 es) changes (front ++ back)
  inserted : Inserted docs lines changes front.length insertion
  edits_eq : edits = (front ++ back).flatten ++ insertion
  made : s.Laid → Edit.apply s.text edits =
    .ok (Edit.laid s.text 0 s.text.length (front.flatten ++ insertion ++ back.flatten))

/-- The edits of several imports, each at its own place. -/
def editsAt (s : Source) (changes : List (Import × ImportChange)) : List (List (Edit Char)) :=
  changes.map fun x => (changeEdit? s x.1 x.2).toList

theorem mem_flatten_editsAt {changes : List (Import × ImportChange)} :
    e ∈ (editsAt s changes).flatten ↔ ∃ x ∈ changes, changeEdit? s x.1 x.2 = some e := by
  simp only [editsAt, List.mem_flatten, List.mem_map]
  constructor
  · rintro ⟨_, ⟨x, hx, rfl⟩, he⟩
    exact ⟨x, hx, Option.mem_toList.mp he⟩
  · rintro ⟨x, hx, he⟩
    exact ⟨_, ⟨x, hx, rfl⟩, Option.mem_toList.mpr he⟩

theorem flatten_editsAt (s : Source) (changes : List (Import × ImportChange)) :
    (editsAt s changes).flatten = changes.filterMap fun (i, change) => changeEdit? s i change := by
  rw [editsAt, ← List.flatMap_def, List.filterMap_eq_flatMap_toList]

section Laid
variable (hlaid : s.Laid)
include hlaid

/-- The edit of an import ends ahead of an import behind it. -/
theorem stop_le_start_of_ordered (hx : x ∈ importChanges c needs s.imports) (hy : y ∈ importChanges c needs s.imports)
    (h : x.1.node.stop ≤ y.1.node.start) (he : changeEdit? s x.1 x.2 = some e) : e.stop ≤ y.1.node.start :=
  (changeEdit_at (import_child hlaid hx).2.2 he).stop_le_start (import_child hlaid hy).2.1 h

theorem start_le_of_change (hy : y ∈ importChanges c needs s.imports) (hf : changeEdit? s y.1 y.2 = some f) :
    y.1.node.start ≤ f.start :=
  ((changeEdit_at (import_child hlaid hy).2.2 hf).bounds (import_child hlaid hy).2.1).1

theorem clear_changes : Edit.Clear (editsAt s (importChanges c needs s.imports)).flatten := by
  rw [flatten_editsAt]
  refine List.Pairwise.filterMap (R := fun x y => x ∈ importChanges c needs s.imports ∧
    y ∈ importChanges c needs s.imports ∧ x.1.node.stop ≤ y.1.node.start) _ (fun x y h e he f hf => ?_)
    ((imports_ordered hlaid).imp_of_mem fun hx hy h => ⟨hx, hy, h⟩)
  obtain ⟨hx, hy, h⟩ := h
  exact (stop_le_start_of_ordered hlaid hx hy h he).trans (start_le_of_change hlaid hy hf)

/-- The new lines stand behind the edits of the imports ahead of them, and ahead of those of the other imports. -/
theorem Inserted.between (h : Inserted docs lines (importChanges c needs s.imports) k insertion) (hf : f ∈ insertion) :
    f.stop = f.start ∧
      (∀ e ∈ (editsAt s ((importChanges c needs s.imports).take k)).flatten, e.stop ≤ f.start) ∧
      ∀ e ∈ (editsAt s ((importChanges c needs s.imports).drop k)).flatten, f.start ≤ e.start := by
  have hordered : (importChanges c needs s.imports).Pairwise fun x y => x.1.node.stop ≤ y.1.node.start :=
    imports_ordered hlaid
  cases h with
  | none => cases hf
  | @behind before rest x _ hchanges hkept =>
    obtain rfl := List.mem_singleton.mp hf
    have hmem : ∀ y ∈ before ++ x :: rest, y ∈ importChanges c needs s.imports := fun y hy => hchanges ▸ hy
    have htake : (importChanges c needs s.imports).take (before.length + 1) = before ++ [x] := by
      rw [hchanges, List.append_cons]
      exact List.take_left' List.length_append
    have hdrop : (importChanges c needs s.imports).drop (before.length + 1) = rest := by simp [hchanges]
    rw [hchanges, List.pairwise_append, List.pairwise_cons] at hordered
    obtain ⟨-, ⟨hrest, -⟩, hbefore⟩ := hordered
    have hx := hmem x (List.mem_append_right _ List.mem_cons_self)
    refine ⟨rfl, fun e he => ?_, fun e he => ?_⟩
    · rw [htake] at he
      obtain ⟨y, hy, hedit⟩ := mem_flatten_editsAt.mp he
      rcases List.mem_append.mp hy with hy | hy
      · have hlt := (import_child hlaid hx).2.1.1
        exact (stop_le_start_of_ordered hlaid (hmem y (List.mem_append_left _ hy)) hx (hbefore y hy x List.mem_cons_self)
          hedit).trans (Nat.le_of_lt hlt)
      · obtain rfl := List.mem_singleton.mp hy
        exact Nat.le_of_eq (stretch_of_stays hkept hedit).2
    · rw [hdrop] at he
      obtain ⟨y, hy, he⟩ := mem_flatten_editsAt.mp he
      exact (hrest y hy).trans
        (start_le_of_change hlaid (hmem y (List.mem_append_right _ (List.mem_cons_of_mem _ hy))) he)
  | @ahead x rest _ hchanges =>
    obtain rfl := List.mem_singleton.mp hf
    refine ⟨rfl, fun e he => ?_, fun e he => ?_⟩
    · cases he
    · obtain ⟨y, hy, he⟩ := mem_flatten_editsAt.mp he
      rw [List.drop_zero] at hy
      refine Nat.le_trans ?_ (start_le_of_change hlaid hy he)
      rw [hchanges, List.pairwise_cons] at hordered
      rw [hchanges] at hy
      rcases List.mem_cons.mp hy with rfl | hy
      · exact Nat.le_refl _
      · have hlt := (import_child hlaid (hchanges ▸ List.mem_cons_self : x ∈ importChanges c needs s.imports)).2.1.1
        exact (Nat.le_of_lt hlt).trans (hordered.1 y hy)
  | atStart =>
    obtain rfl := List.mem_singleton.mp hf
    refine ⟨rfl, fun e he => ?_, fun e _ => Nat.zero_le _⟩
    cases he

end Laid

theorem Inserted.le_length {changes : List (Import × ImportChange)} (h : Inserted docs lines changes k insertion) :
    k ≤ changes.length := by
  cases h with
  | none => exact Nat.zero_le _
  | behind _ hchanges =>
    rw [hchanges, List.length_append, List.length_cons]
    omega
  | ahead => exact Nat.zero_le _
  | atStart => exact Nat.zero_le _

/-- The edits of the imports are made at their places. -/
theorem importEdits_edited (c : Settings) (s : Source) (needs : ImportNeeds) : ∃ front insertion back,
    ImportsEdited c.documentation s (newImportLines c.documentation needs s.imports) (importChanges c needs s.imports)
      (importEdits c s needs) front insertion back := by
  obtain ⟨k, hinserted⟩ := inserted_newImportsEdit c.documentation (importChanges c needs s.imports)
    (newImportLines c.documentation needs s.imports)
  generalize hinsertion : newImportsEdit c.documentation (importChanges c needs s.imports)
    (newImportLines c.documentation needs s.imports) = insertion at hinserted
  have hsplit : editsAt s ((importChanges c needs s.imports).take k) ++ editsAt s ((importChanges c needs s.imports).drop k) =
      editsAt s (importChanges c needs s.imports) := by
    rw [editsAt, editsAt, editsAt, ← List.map_append, List.take_append_drop]
  have hedits : importEdits c s needs = (editsAt s (importChanges c needs s.imports)).flatten ++ insertion := by
    rw [flatten_editsAt, ← hinsertion]
    rfl
  refine ⟨_, insertion, _, ?changed, ?inserted, hsplit ▸ hedits, fun hlaid => ?_⟩
  case changed =>
    rw [hsplit, editsAt, List.forall₂_map_right_iff, List.forall₂_same]
    exact fun x _ => edited_changeEdit s x.1 x.2
  case inserted =>
    rw [editsAt, List.length_map, List.length_take_of_le hinserted.le_length]
    exact hinserted
  refine Edit.apply_eq_laid (importEdits_fit hlaid) (importEdits_apart hlaid) ?_ ?_
  · rw [hedits, ← hsplit, List.flatten_append, List.append_assoc, List.append_assoc]
    exact List.Perm.append_left _ List.perm_append_comm
  · have hclear : Edit.Clear (editsAt s (importChanges c needs s.imports)).flatten := clear_changes hlaid
    rw [← hsplit, List.flatten_append, Edit.Clear, List.pairwise_append] at hclear
    obtain ⟨hfront, hback, hbetween⟩ := hclear
    rw [Edit.Clear, List.pairwise_append, List.pairwise_append]
    refine ⟨⟨hfront, ?_, fun e he f hf => (hinserted.between hlaid hf).2.1 e he⟩, hback, fun e he f hf => ?_⟩
    · rw [← hinsertion]
      exact newImportsEdit_pairwise
    · rcases List.mem_append.mp he with he | he
      · exact hbetween e he f hf
      · obtain ⟨hpoint, -, hafter⟩ := hinserted.between hlaid he
        exact hpoint ▸ hafter f hf

/-! ### All names are bound -/

/-- What the changes of all imports come to, when no specifier of a marker is renamed. Each import lists what stays of it,
    which are all its specifiers but those of markers, in order, and then the names that are added to it; one with other
    bindings or without any names is left alone. The names that are added there and to new imports are those that are
    used and were not bound, each of them once. So in the end all names that are used are bound. The imports are edited as
    they change, and the new ones are put in among those that stay. -/
theorem Plan.needs_met (c : Settings) (path : Option Path) (s : Source) (p : Plan)
    (hmarkers : ∀ i ∈ s.imports, ∀ q ∈ i.specifiers, q.name ∈ c.conventions.markers → q.rename = none)
    (hwritten : ∀ i ∈ s.imports, ∀ q ∈ i.specifiers, q.rename = none → q.text ∈ p.decorators → q.name = q.text)
    (hdecorators : ∀ name ∈ p.decorators, name ∉ c.conventions.markers)
    (hlookups : ∀ name ∈ p.lookups.map (·.1), name ∉ c.conventions.markers ∧ name ∉ p.decorators) :
    let needs := p.needs c path s.imports
    let changes := importChanges c needs s.imports
    let after := listings c needs s.imports
    let new := newImports c.documentation needs s.imports
    let added := after.flatMap (·.added) ++ new.flatMap (·.1)
    List.Forall₂ (fun x l => l.before = x.1 ∧ x.2.Lists x.1 l.specifiers ∧ l.kept.Sublist x.1.specifiers ∧
        (l.kept.filter fun q => !c.conventions.markers.contains q.name) =
          (x.1.specifiers.filter fun q => !c.conventions.markers.contains q.name) ∧
        (x.1.hasOtherBindings = true ∨ x.1.hasNames = false → x.2 = .kept)) changes after ∧
    changes.map (·.1) = s.imports ∧
    added.Nodup ∧
    (∀ name, name ∈ added ↔
      (name ∈ p.decorators ∨ name ∈ p.lookups.map (·.1)) ∧ name ∉ s.imports.flatMap Import.localNames) ∧
    (∀ name, name ∈ p.decorators ∨ name ∈ p.lookups.map (·.1) →
      ∃ q ∈ after.flatMap Listing.specifiers ++ new.flatMap (·.1.map .bare), q.localName = name) ∧
    ∃ front insertion back, ImportsEdited c.documentation s
      (new.map fun n => "import \x7b " ++ String.intercalate ", " n.1 ++ " \x7d from '" ++ n.2 ++ "';") changes
      (importEdits c s needs) front insertion back := by
  intro needs changes after new added
  have hadded : added = needs.decorators ++ needs.lookups.map (·.name) := by
    rw [← added_eq c.documentation needs s.imports]
    simp only [added, after, new, listings, List.flatMap_map]
  obtain ⟨hnodup, hmissing⟩ := missing_spec c path s.imports p fun name hname => (hlookups name hname).2
  have hlines : newImportLines c.documentation needs s.imports =
      new.map fun n => "import \x7b " ++ String.intercalate ", " n.1 ++ " \x7d from '" ++ n.2 ++ "';" :=
    newImportLines_eq _ _ _
  refine ⟨?_, importChanges_fst c needs s.imports, hadded ▸ hnodup, fun name => hadded ▸ hmissing name, ?_,
    hlines ▸ importEdits_edited c s needs⟩
  · unfold changes importChanges after listings
    rw [List.forall₂_map_left_iff, List.forall₂_map_right_iff, List.forall₂_same]
    rintro ⟨i, k⟩ hik
    have hk : s.imports[k]? = some i := List.mem_zipIdx_iff_getElem?.mp hik
    have hi : i ∈ s.imports := List.mem_of_getElem? hk
    refine ⟨rfl, importChange_lists (fun q hq hmarker htext => ?_) fun hother => addedTo_of_other hk (Or.inl hother),
      staying_sublist _ _ _, filter_staying _ _ _, fun hplain => importChange_kept ?_⟩
    · split at htext
      · have hused := mem_sortedNames.mp (List.mem_of_mem_filter (needs_decorators c path s.imports p ▸ htext))
        have hname := hwritten i hi q hq (hmarkers i hi q hq hmarker) hused
        exact hdecorators _ hused (hname ▸ hmarker)
      · cases htext
    · refine hplain.imp_right fun hnone => ⟨?_, addedTo_of_other hk (Or.inr hnone)⟩
      obtain ⟨n, -, rfl⟩ := List.mem_map.mp hi
      exact specifiers_of_hasNames hnone
  · intro name hused
    by_cases hbound : name ∈ s.imports.flatMap Import.localNames
    · obtain ⟨i, hi, hname⟩ := List.mem_flatMap.mp hbound
      obtain ⟨q, hq, rfl⟩ := List.mem_map.mp hname
      obtain ⟨k, hk⟩ := List.mem_iff_getElem?.mp hi
      -- The specifier of a marker binds the marker, which is not used.
      have hplain : q.name ∉ c.conventions.markers := fun hmarker => by
        have hlocal : q.localName = q.name := by
          unfold ImportSpecifier.localName
          rw [hmarkers i hi q hq hmarker]
        rw [hlocal] at hused
        exact hused.elim (fun h => hdecorators _ h hmarker) fun h => (hlookups _ h).1 hmarker
      refine ⟨q, List.mem_append_left _ (List.mem_flatMap.mpr ⟨_, List.mem_map.mpr
        ⟨(i, k), List.mem_zipIdx_iff_getElem?.mpr hk, rfl⟩, List.mem_append_left _ (mem_staying hq hplain)⟩), rfl⟩
    · have hname : name ∈ added := hadded ▸ (hmissing name).mpr ⟨hused, hbound⟩
      refine ⟨.bare name, ?_, rfl⟩
      rcases List.mem_append.mp hname with hname | hname
      · obtain ⟨l, hl, hname⟩ := List.mem_flatMap.mp hname
        exact List.mem_append_left _ (List.mem_flatMap.mpr
          ⟨l, hl, List.mem_append_right _ (List.mem_map_of_mem hname)⟩)
      · obtain ⟨l, hl, hname⟩ := List.mem_flatMap.mp hname
        exact List.mem_append_right _ (List.mem_flatMap.mpr ⟨l, hl, List.mem_map_of_mem hname⟩)

namespace Users

/-- Imports of every kind. -/
def mixed : String :=
  "import \x7b InferAPIResponse, Cached as cached \x7d from 'infer';\nimport * as fs from 'fs';\nimport './effects';\n" ++
    "import \x7b ApiTags \x7d from '@nestjs/swagger';\n"

/-- All markers are removed, and one new decorator refers to a lookup object. -/
def mixedPlan : Plan :=
  { Plan.empty with
    decorators := ["ApiOkResponse"]
    lookups := [("UsersServiceResponse", Path.ofString "/project/users.response.ts")] }

/-- The imports in the end. -/
def mixedRewritten : String :=
  "import \x7b Cached as cached \x7d from 'infer';\nimport * as fs from 'fs';\nimport './effects';\n" ++
    "import \x7b ApiTags, ApiOkResponse \x7d from '@nestjs/swagger';\n" ++
    "import \x7b UsersServiceResponse \x7d from './users.response';\n"

end Users

theorem needs_met_mixed : ∃ s, Source.ofText? Users.mixed = some s ∧ s.Laid ∧
    (∀ i ∈ s.imports, ∀ q ∈ i.specifiers, q.name ∈ Users.settings.conventions.markers → q.rename = none) ∧
    (∀ i ∈ s.imports, ∀ q ∈ i.specifiers, q.rename = none → q.text ∈ Users.mixedPlan.decorators → q.name = q.text) ∧
    (∀ name ∈ Users.mixedPlan.decorators, name ∉ Users.settings.conventions.markers) ∧
    (∀ name ∈ Users.mixedPlan.lookups.map (·.1),
      name ∉ Users.settings.conventions.markers ∧ name ∉ Users.mixedPlan.decorators) ∧
    let needs := Users.mixedPlan.needs Users.settings none s.imports
    (∀ name ∈ ["ApiOkResponse", "UsersServiceResponse"],
      ∃ q ∈ (listings Users.settings needs s.imports).flatMap Listing.specifiers ++
        (newImports Users.settings.documentation needs s.imports).flatMap (·.1.map .bare), q.localName = name) ∧
    ∃ front insertion back, ImportsEdited Users.settings.documentation s
        ["import \x7b UsersServiceResponse \x7d from './users.response';"] (importChanges Users.settings needs s.imports)
        (importEdits Users.settings s needs) front insertion back ∧
      Edit.laid s.text 0 s.text.length (front.flatten ++ insertion ++ back.flatten) = Users.mixedRewritten.toList := by
  obtain ⟨s, s', hs, hs', hall⟩ := Source.exists_both (a := Users.mixed) (b := Users.mixedRewritten)
    (.append .piece .piece) (.append (.append .piece .piece) .piece) (fun s s' =>
      let needs := Users.mixedPlan.needs Users.settings none s.imports
      decide ((∀ i ∈ s.imports, ∀ q ∈ i.specifiers, q.name ∈ Users.settings.conventions.markers → q.rename = none) ∧
        (∀ i ∈ s.imports, ∀ q ∈ i.specifiers, q.rename = none → q.text ∈ Users.mixedPlan.decorators → q.name = q.text) ∧
        s.Laid ∧
        newImports Users.settings.documentation needs s.imports = [(["UsersServiceResponse"], "./users.response")] ∧
        ((importEdits Users.settings s needs).Pairwise fun a b => a.stop ≤ b.start) ∧
        Edit.laid s.text 0 s.text.length (importEdits Users.settings s needs) = s'.text) = true) (by decide +kernel)
  obtain ⟨hmarkers, hwritten, hlaid, hnew, hclear, htext⟩ := of_decide_eq_true hall
  rw [Source.text_of_ofText? hs'] at htext
  have hdecorators : ∀ name ∈ Users.mixedPlan.decorators, name ∉ Users.settings.conventions.markers := by decide
  have hlookups : ∀ name ∈ Users.mixedPlan.lookups.map (·.1),
      name ∉ Users.settings.conventions.markers ∧ name ∉ Users.mixedPlan.decorators := by decide
  obtain ⟨-, -, -, -, hbound, front, insertion, back, hedited⟩ :=
    Plan.needs_met Users.settings none s Users.mixedPlan hmarkers hwritten hdecorators hlookups
  refine ⟨s, hs, hlaid, hmarkers, hwritten, hdecorators, hlookups,
    List.forall_mem_cons.mpr ⟨?_, List.forall_mem_singleton.mpr ?_⟩, front, insertion, back, ?_, ?_⟩
  · exact hbound _ (Or.inl (by decide))
  · exact hbound _ (Or.inr (by decide))
  · rw [hnew] at hedited
    exact hedited
  · -- The edits are given in their order, so their text can be told as they are given.
    have happly := Edit.apply_eq_laid (importEdits_fit hlaid) (importEdits_apart hlaid) (List.Perm.refl _) hclear
    exact (Except.ok.inj ((hedited.made hlaid).symm.trans happly)).trans htext

end ResponseShapes
