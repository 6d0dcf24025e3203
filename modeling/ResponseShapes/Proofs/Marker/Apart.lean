import ResponseShapes.Proofs.Edit.Bytes
import ResponseShapes.Proofs.Marker.Places

/-! # Where a source is edited

Imports that change are edited where they stand, and new imports come in at a place that no other edit reaches over.
So no two edits of a source overlap, and rewriting a source whose tree is laid over its text always gives a text. -/

namespace ResponseShapes

open Syntax Syntax.Node

/-! ### Edits of imports -/

section Imports
variable {c : Settings} {s : Source} {needs : ImportNeeds} {n : Node}

theorem lineRemoval_at (hlen : n.stop ≤ s.text.length) : At s n (lineRemoval s n) := by
  let blank : Char → Bool := fun ch => ch == ' ' || ch == '\t' || ch == '\r'
  let blanks := (s.text.drop n.stop).takeWhile blank
  have hle : n.stop + blanks.length ≤ s.text.length := length_takeWhile_drop_le blank s.text hlen
  have hpadding : ∀ ch, blank ch = true → isPadding ch = true := fun ch h => by
    unfold isPadding
    rw [Bool.or_eq_true]
    exact Or.inl h
  have hblank : ∀ i, n.stop ≤ i → i < n.stop + blanks.length → (s.text[i]?.any isPadding) = true := fun i h₁ h₂ =>
    getElem?_of_takeWhile hpadding h₁ h₂
  by_cases hend : ((s.text.drop n.stop).drop blanks.length).head? = some '\n'
  · have hget : s.text[n.stop + blanks.length]? = some '\n' := by
      rw [← hend, List.head?_eq_getElem?, List.getElem?_drop, List.getElem?_drop, Nat.add_zero]
    have hlt := (List.getElem?_eq_some_iff.mp hget).1
    have hstop : (lineRemoval s n).stop = n.stop + blanks.length + 1 :=
      congrArg (n.stop + blanks.length + ·) (if_pos hend)
    refine .across rfl (by omega) (by omega) fun i h₁ h₂ => ?_
    by_cases hi : i < n.stop + blanks.length
    · exact hblank i h₁ hi
    · have heq : i = n.stop + blanks.length := by omega
      rw [heq, hget]
      rfl
  · have hstop : (lineRemoval s n).stop = n.stop + blanks.length := congrArg (n.stop + blanks.length + ·) (if_neg hend)
    exact .across rfl (by omega) (by omega) fun i h₁ h₂ => hblank i h₁ (by omega)

theorem changeEdit_at {i : Import} {change : ImportChange} {e : Edit Char} (hlen : i.node.stop ≤ s.text.length)
    (h : changeEdit? s i change = some e) : At s i.node e := by
  cases change with
  | kept => cases h
  | removed =>
    obtain rfl := Option.some.inj h
    exact lineRemoval_at hlen
  | relisted specifiers =>
    obtain rfl := Option.some.inj h
    exact replacement_at hlen _

/-- An import that stays is at most listed anew, so the edit covers it and nothing else. -/
theorem stretch_of_stays {i : Import} {change : ImportChange} {e : Edit Char} (hstays : change ≠ .removed)
    (h : changeEdit? s i change = some e) : e.start = i.node.start ∧ e.stop = i.node.stop := by
  cases change with
  | kept => cases h
  | removed => exact absurd rfl hstays
  | relisted specifiers =>
    obtain rfl := Option.some.inj h
    exact ⟨rfl, rfl⟩

theorem importChanges_fst (c : Settings) (needs : ImportNeeds) (imports : List Import) :
    (importChanges c needs imports).map (·.1) = imports := by
  unfold importChanges
  rw [List.map_map]
  exact List.zipIdx_map_fst 0 imports

theorem importChanges_nodes (c : Settings) (needs : ImportNeeds) :
    (importChanges c needs s.imports).map (·.1.node) = s.root.childrenOf .importStatement := by
  have h : (importChanges c needs s.imports).map (·.1.node) = s.imports.map (·.node) := by
    have hfst := congrArg (List.map Import.node) (importChanges_fst c needs s.imports)
    rw [List.map_map] at hfst
    exact hfst
  rw [h, Source.imports, List.map_map]
  exact List.map_id _

variable (hlaid : s.Laid)
include hlaid

theorem import_child {x : Import × ImportChange} (hx : x ∈ importChanges c needs s.imports) :
    x.1.node ∈ s.root.childrenOf .importStatement ∧ x.1.node.Begins s.text ∧ x.1.node.stop ≤ s.text.length := by
  have hmem : x.1.node ∈ s.root.childrenOf .importStatement :=
    importChanges_nodes c needs ▸ List.mem_map_of_mem hx
  obtain ⟨hchild, hkind⟩ := mem_childrenOf.mp hmem
  have h := Node.Laid.child hlaid hchild
  exact ⟨hmem, h.begins (isLead_of_import hkind), h.laid.span.2⟩

theorem imports_ordered : (importChanges c needs s.imports).Pairwise fun x y => x.1.node.stop ≤ y.1.node.start := by
  have h : (s.root.childrenOf .importStatement).Pairwise fun a b => a.stop ≤ b.start :=
    (Node.Laid.ordered hlaid).sublist List.filter_sublist
  rw [← importChanges_nodes c needs, List.pairwise_map] at h
  exact h

theorem changes_seated : Seated s (s.root.childrenOf .importStatement)
    ((importChanges c needs s.imports).filterMap fun (i, change) => changeEdit? s i change) := by
  rw [← importChanges_nodes c needs]
  exact .filterMap fun x hx e he => changeEdit_at (import_child hlaid hx).2.2 he

end Imports

/-! ### New imports -/

/-- Where new imports come in: behind an import that stays, where the first one stood, or at the start. -/
inductive ComesIn (changes : List (Import × ImportChange)) (e : Edit Char) : Prop
  | behind (x : Import × ImportChange) (hx : x ∈ changes) (hkept : x.2 ≠ .removed) (start_eq : e.start = x.1.node.stop)
  | ahead (x : Import × ImportChange) (rest : List (Import × ImportChange)) (hchanges : changes = x :: rest)
      (start_eq : e.start = x.1.node.start)
  | atStart (hchanges : changes = []) (start_eq : e.start = 0)

/-- New lines are put in among the imports, with `k` of them before: behind the last import of the framework that stays, or
    else behind the last one that stays; where none stays, ahead of the first one; and at the start if there is none. -/
inductive Inserted (docs : Documentation) (lines : List String) (changes : List (Import × ImportChange)) :
    Nat → List (Edit Char) → Prop
  | none (h : lines = []) : Inserted docs lines changes 0 []
  | behind {before rest : List (Import × ImportChange)} {x : Import × ImportChange} (hlines : lines ≠ [])
      (hchanges : changes = before ++ x :: rest) (hkept : x.2 ≠ .removed)
      (hlast : (x.1.source = docs.module ∧ ∀ y ∈ rest, y.2 ≠ .removed → y.1.source ≠ docs.module) ∨
        (∀ y ∈ rest, y.2 = .removed) ∧ ∀ y ∈ changes, y.2 ≠ .removed → y.1.source ≠ docs.module) :
      Inserted docs lines changes (before.length + 1)
        [{ start := x.1.node.stop, stop := x.1.node.stop, replacement := lines.flatMap fun l => '\n' :: l.toList }]
  | ahead {x : Import × ImportChange} {rest : List (Import × ImportChange)} (hlines : lines ≠ [])
      (hchanges : changes = x :: rest) (hremoved : ∀ y ∈ changes, y.2 = .removed) :
      Inserted docs lines changes 0
        [{ start := x.1.node.start, stop := x.1.node.start, replacement := lines.flatMap fun l => l.toList ++ ['\n'] }]
  | atStart (hlines : lines ≠ []) (hchanges : changes = []) :
      Inserted docs lines changes 0
        [{ start := 0, stop := 0, replacement := (String.intercalate "\n" lines ++ "\n\n").toList }]

theorem exists_last_of_find? {α : Type} {p : α → Bool} {xs : List α} {a : α} (h : xs.reverse.find? p = some a) :
    p a = true ∧ ∃ before rest, xs = before ++ a :: rest ∧ ∀ b ∈ rest, p b = false := by
  obtain ⟨hp, before, rest, hxs, hbefore⟩ := List.find?_eq_some_iff_append.mp h
  refine ⟨hp, rest.reverse, before.reverse, ?_, fun b hb => ?_⟩
  · rw [← List.reverse_reverse xs, hxs]
    simp
  · simpa using hbefore b (List.mem_reverse.mp hb)

section NewImports
variable {docs : Documentation} {changes : List (Import × ImportChange)} {lines : List String} {e : Edit Char} {k : Nat}
  {es : List (Edit Char)}

/-- The imports that stay. -/
def stayingImports (changes : List (Import × ImportChange)) : List Import :=
  (changes.filter fun (_, change) => change ≠ .removed).map (·.1)

/-- The last one of the imports that stay and satisfy a condition. -/
theorem exists_last_of_staying {p : Import → Bool} {i : Import} (h : (stayingImports changes).reverse.find? p = some i) :
    ∃ before x rest, changes = before ++ x :: rest ∧ x.1 = i ∧ x.2 ≠ .removed ∧ p i = true ∧
      ∀ y ∈ rest, y.2 ≠ .removed → p y.1 = false := by
  rw [stayingImports, ← List.map_reverse, ← List.filter_reverse, List.find?_map, List.find?_filter] at h
  obtain ⟨x, hx, rfl⟩ := Option.map_eq_some_iff.mp h
  obtain ⟨hx, before, rest, hchanges, hrest⟩ := exists_last_of_find? hx
  simp only [Function.comp_apply, decide_eq_true_eq] at hx
  refine ⟨before, x, rest, hchanges, rfl, hx.1, hx.2, fun y hy hkept => ?_⟩
  simpa [hkept] using hrest y hy

theorem inserted_newImportsEdit (docs : Documentation) (changes : List (Import × ImportChange)) (lines : List String) :
    ∃ k, Inserted docs lines changes k (newImportsEdit docs changes lines) := by
  unfold newImportsEdit
  by_cases hlines : lines = []
  · rw [if_pos (by simpa using hlines)]
    exact ⟨0, .none hlines⟩
  rw [if_neg (by simpa using hlines)]
  dsimp only
  rw [← stayingImports]
  cases hmodule : (stayingImports changes).reverse.find? fun i => i.source = docs.module with
  | some i =>
    obtain ⟨before, x, rest, hchanges, rfl, hkept, hsource, hrest⟩ := exists_last_of_staying hmodule
    rw [Option.some_or]
    exact ⟨_, .behind hlines hchanges hkept (.inl ⟨by simpa using hsource, fun y hy h => by simpa using hrest y hy h⟩)⟩
  | none =>
    have hother : ∀ y ∈ changes, y.2 ≠ .removed → y.1.source ≠ docs.module := fun y hy hkept => by
      have hmem : y.1 ∈ stayingImports changes :=
        List.mem_map_of_mem (List.mem_filter.mpr ⟨hy, decide_eq_true hkept⟩)
      simpa using List.find?_eq_none.mp hmodule y.1 (List.mem_reverse.mpr hmem)
    rw [Option.none_or, List.getLast?_eq_head?_reverse]
    cases hlast : (stayingImports changes).reverse.head? with
    | some i =>
      have hfind : (stayingImports changes).reverse.find? (fun _ => true) = some i := by
        obtain ⟨rest, hrest⟩ := List.head?_eq_some_iff.mp hlast
        rw [hrest, List.find?_cons_of_pos rfl]
      obtain ⟨before, x, rest, hchanges, rfl, hkept, -, hrest⟩ := exists_last_of_staying hfind
      refine ⟨_, .behind hlines hchanges hkept (.inr ⟨fun y hy => ?_, hother⟩)⟩
      by_contra hkept
      exact Bool.noConfusion (hrest y hy hkept)
    | none =>
      have hremoved : ∀ y ∈ changes, y.2 = .removed := by
        have hnil := List.map_eq_nil_iff.mp (List.reverse_eq_nil_iff.mp (List.head?_eq_none_iff.mp hlast))
        simpa using List.filter_eq_nil_iff.mp hnil
      cases changes with
      | nil => exact ⟨0, .atStart hlines rfl⟩
      | cons x rest => exact ⟨0, .ahead hlines rfl hremoved⟩

theorem Inserted.comesIn (h : Inserted docs lines changes k es) (he : e ∈ es) : e.stop = e.start ∧ ComesIn changes e := by
  cases h with
  | none => cases he
  | behind _ hchanges hkept =>
    obtain rfl := List.mem_singleton.mp he
    exact ⟨rfl, .behind _ (hchanges ▸ List.mem_append_right _ List.mem_cons_self) hkept rfl⟩
  | ahead _ hchanges =>
    obtain rfl := List.mem_singleton.mp he
    exact ⟨rfl, .ahead _ _ hchanges rfl⟩
  | atStart _ hchanges =>
    obtain rfl := List.mem_singleton.mp he
    exact ⟨rfl, .atStart hchanges rfl⟩

theorem newImportsEdit_comesIn (h : e ∈ newImportsEdit docs changes lines) : e.stop = e.start ∧ ComesIn changes e :=
  (inserted_newImportsEdit docs changes lines).elim fun _ hinserted => hinserted.comesIn h

theorem newImportsEdit_pairwise {R : Edit Char → Edit Char → Prop} :
    (newImportsEdit docs changes lines).Pairwise R := by
  unfold newImportsEdit
  split
  · exact List.Pairwise.nil
  · simp only
    split <;> exact List.pairwise_singleton _ _

end NewImports

/-! ### All edits of a source -/

section All
variable {c : Settings} {t : LookupTable} {s : Source} {path : Option Path} {needs : ImportNeeds} {e f : Edit Char}

theorem decorator_clear_import (hlaid : s.Laid) {cls : ClassDeclaration} (hcls : cls ∈ s.classes) {d : Decorator}
    (hd : d ∈ cls.allDecorators) {n : Node} (hn : n ∈ s.root.childrenOf .importStatement) :
    d.node.stop < n.start ∨ n.stop ≤ d.node.start := by
  obtain ⟨statement, outer, hmem, hkind, -, hat⟩ := Source.exists_classAt hcls
  obtain ⟨hbelow, -, hlt⟩ := hat.decorator_inside (Node.Laid.child hlaid hmem).laid hd
  obtain ⟨-, hstart, -⟩ := (Node.Laid.child hlaid hmem).laid.below hbelow
  rcases hlaid.clear_of_import hn hmem hkind (.refl statement) with h | h
  · exact Or.inl (by omega)
  · exact Or.inr (by omega)

theorem decorator_apart_comesIn (hlaid : s.Laid) {cls : ClassDeclaration} (hcls : cls ∈ s.classes) {d : Decorator}
    (hd : d ∈ cls.allDecorators) (hf : At s d.node f) (hpoint : e.stop = e.start)
    (he : ComesIn (importChanges c needs s.imports) e) : Edit.Apart f e := by
  obtain ⟨hbegins, -⟩ := hlaid.decorator_begins hcls hd
  have hlt := hbegins.1
  have hbounds := hf.bounds hbegins
  refine hf.apart_of_point hbegins hpoint ?_
  cases he with
  | behind x hx _ start_eq =>
    obtain ⟨hmem, hx, -⟩ := import_child hlaid hx
    have hlt' := hx.1
    rcases decorator_clear_import hlaid hcls hd hmem with h | h
    · have := hf.before hbegins hx h
      exact Or.inl (by omega)
    · exact Or.inr (by omega)
  | ahead x rest hchanges start_eq =>
    have hx : x ∈ importChanges c needs s.imports := hchanges ▸ List.mem_cons_self
    obtain ⟨hmem, hx, -⟩ := import_child hlaid hx
    have hlt' := hx.1
    rcases decorator_clear_import hlaid hcls hd hmem with h | h
    · have := hf.before hbegins hx h
      exact Or.inl (by omega)
    · exact Or.inr (by omega)
  | atStart _ start_eq => exact Or.inr (by omega)

theorem imports_clear (hlaid : s.Laid) {x y : Import × ImportChange} (hx : x ∈ importChanges c needs s.imports)
    (hy : y ∈ importChanges c needs s.imports) (hne : x ≠ y) : Clear x.1.node y.1.node := by
  have hsymm : Std.Symm fun x y : Import × ImportChange => Clear x.1.node y.1.node := ⟨fun _ _ h => h.symm⟩
  have hclear : (importChanges c needs s.imports).Pairwise fun x y => Clear x.1.node y.1.node :=
    (imports_ordered hlaid).imp fun h => Or.inl h
  exact hclear.forall hx hy hne

theorem change_apart_comesIn (hlaid : s.Laid) {x : Import × ImportChange}
    (hx : x ∈ importChanges c needs s.imports) (hf : changeEdit? s x.1 x.2 = some f) (hpoint : e.stop = e.start)
    (he : ComesIn (importChanges c needs s.imports) e) : Edit.Apart f e := by
  obtain ⟨-, hbegins, hlen⟩ := import_child hlaid hx
  have hat := changeEdit_at hlen hf
  have hlt := hbegins.1
  refine hat.apart_of_point hbegins hpoint ?_
  cases he with
  | behind y hy hkept start_eq =>
    obtain ⟨-, hbegins', -⟩ := import_child hlaid hy
    have hlt' := hbegins'.1
    by_cases hxy : x = y
    · subst hxy
      obtain ⟨hstart, hstop⟩ := stretch_of_stays hkept hf
      exact Or.inl (by omega)
    · rcases imports_clear hlaid hx hy hxy with h | h
      · have hstop := hat.stop_le_start hbegins' h
        have hfits := (hat.fits hbegins hlen).1
        exact Or.inl (by omega)
      · exact Or.inr (by omega)
  | ahead y rest hchanges start_eq =>
    have hord : (importChanges c needs s.imports).Pairwise fun x y => x.1.node.stop ≤ y.1.node.start :=
      imports_ordered hlaid
    have hy : y ∈ importChanges c needs s.imports := hchanges ▸ List.mem_cons_self
    have hlt' := (import_child hlaid hy).2.1.1
    rw [hchanges] at hx hord
    rcases List.mem_cons.mp hx with rfl | hx
    · exact Or.inr (by omega)
    · have := (List.pairwise_cons.mp hord).1 x hx
      exact Or.inr (by omega)
  | atStart hchanges =>
    rw [hchanges] at hx
    cases hx

theorem comesIn_fits (hlaid : s.Laid) (hpoint : e.stop = e.start)
    (he : ComesIn (importChanges c needs s.imports) e) : e.Fits s.text.length := by
  cases he with
  | behind x hx _ start_eq =>
    obtain ⟨-, -, hlen⟩ := import_child hlaid hx
    exact ⟨by omega, by omega⟩
  | ahead x rest hchanges start_eq =>
    have hx : x ∈ importChanges c needs s.imports := hchanges ▸ List.mem_cons_self
    obtain ⟨-, hbegins, hlen⟩ := import_child hlaid hx
    have hlt := hbegins.1
    exact ⟨by omega, by omega⟩
  | atStart _ start_eq => exact ⟨by omega, by omega⟩

/-! ### Edits of all imports -/

theorem mem_importEdits (h : e ∈ importEdits c s needs) :
    (∃ x ∈ importChanges c needs s.imports, changeEdit? s x.1 x.2 = some e) ∨
      e.stop = e.start ∧ ComesIn (importChanges c needs s.imports) e := by
  unfold importEdits at h
  rcases List.mem_append.mp h with h | h
  · exact Or.inl (List.mem_filterMap.mp h)
  · exact Or.inr (newImportsEdit_comesIn h)

theorem importEdits_fit (hlaid : s.Laid) : ∀ e ∈ importEdits c s needs, e.Fits s.text.length := by
  intro e he
  rcases mem_importEdits he with ⟨x, hx, he⟩ | ⟨hpoint, he⟩
  · obtain ⟨-, hbegins, hlen⟩ := import_child hlaid hx
    exact (changeEdit_at hlen he).fits hbegins hlen
  · exact comesIn_fits hlaid hpoint he

theorem importEdits_apart (hlaid : s.Laid) : (importEdits c s needs).Pairwise Edit.Apart := by
  unfold importEdits
  rw [List.pairwise_append]
  refine ⟨?_, newImportsEdit_pairwise, fun e he f hf => ?_⟩
  · refine (changes_seated hlaid).apart (fun n hn => ?_) ?_
    · obtain ⟨hn, hkind⟩ := mem_childrenOf.mp hn
      exact (Node.Laid.child hlaid hn).begins (isLead_of_import hkind)
    · exact ((Node.Laid.ordered hlaid).sublist List.filter_sublist).imp fun h => Or.inl h
  · obtain ⟨x, hx, he⟩ := List.mem_filterMap.mp he
    obtain ⟨hpoint, hf⟩ := newImportsEdit_comesIn hf
    exact change_apart_comesIn hlaid hx he hpoint hf

namespace Rewritten

/-- An edit of a source is made at a decorator or at an import, or it puts in new imports. -/
theorem mem_edits (h : e ∈ edits c path s (Plan.ofSource c t s)) :
    e ∈ (Plan.ofSource c t s).edits ∨
      (∃ x ∈ importChanges c ((Plan.ofSource c t s).needs c path s.imports) s.imports,
        changeEdit? s x.1 x.2 = some e) ∨
      e.stop = e.start ∧
        ComesIn (importChanges c ((Plan.ofSource c t s).needs c path s.imports) s.imports) e := by
  unfold edits at h
  split at h
  · cases h
  · rcases List.mem_append.mp h with h | h
    · exact Or.inl h
    · exact Or.inr (mem_importEdits h)

theorem plan_edit_at (hlaid : s.Laid) (h : e ∈ (Plan.ofSource c t s).edits) :
    ∃ cls ∈ s.classes, ∃ d ∈ cls.allDecorators, At s d.node e := by
  obtain ⟨n, hn, hat⟩ := (plan_seated hlaid).mem h
  obtain ⟨d, hd, rfl⟩ := List.mem_map.mp hn
  obtain ⟨cls, hcls, hd⟩ := List.mem_flatMap.mp hd
  exact ⟨cls, hcls, d, hd, hat⟩

theorem edits_fit (hlaid : s.Laid) : ∀ e ∈ edits c path s (Plan.ofSource c t s), e.Fits s.text.length := by
  intro e he
  unfold edits at he
  split at he
  · cases he
  · rcases List.mem_append.mp he with he | he
    · obtain ⟨cls, hcls, d, hd, hat⟩ := plan_edit_at hlaid he
      obtain ⟨hbegins, hlen⟩ := hlaid.decorator_begins hcls hd
      exact hat.fits hbegins hlen
    · exact importEdits_fit hlaid e he

theorem plan_edits_apart (hlaid : s.Laid) : (Plan.ofSource c t s).edits.Pairwise Edit.Apart := by
  refine (plan_seated hlaid).apart (fun n hn => ?_) ?_
  · obtain ⟨d, hd, rfl⟩ := List.mem_map.mp hn
    obtain ⟨cls, hcls, hd⟩ := List.mem_flatMap.mp hd
    exact (hlaid.decorator_begins hcls hd).1
  · rw [List.pairwise_map]
    exact hlaid.decorators_clear

/-- No two edits of a source overlap or have the same stretch. -/
theorem edits_apart (hlaid : s.Laid) : (edits c path s (Plan.ofSource c t s)).Pairwise Edit.Apart := by
  unfold edits
  split
  · exact List.Pairwise.nil
  · rw [List.pairwise_append]
    refine ⟨plan_edits_apart hlaid, importEdits_apart hlaid, fun e he f hf => ?_⟩
    obtain ⟨cls, hcls, d, hd, hat⟩ := plan_edit_at hlaid he
    rcases mem_importEdits hf with ⟨x, hx, hf⟩ | ⟨hpoint, hf⟩
    · obtain ⟨hmem, hbegins, hlen⟩ := import_child hlaid hx
      have hclear : Clear d.node x.1.node := (decorator_clear_import hlaid hcls hd hmem).imp_left Nat.le_of_lt
      exact hat.apart (changeEdit_at hlen hf) (hlaid.decorator_begins hcls hd).1 hbegins hclear
    · exact decorator_apart_comesIn hlaid hcls hd hat hpoint hf

/-! ### The rewritten source -/

/-- Rewriting makes all edits of the plan and tells what the plan tells. -/
theorem ofSource_eq_ok {r : Rewritten} : ofSource c t path s = .ok r ↔
    Edit.apply s.text (edits c path s (Plan.ofSource c t s)) = .ok r.text.toList ∧
      r.count = (Plan.ofSource c t s).rewritten ∧ r.unresolved = (Plan.ofSource c t s).unresolved := by
  unfold ofSource
  simp only
  split
  · rename_i text happly
    rw [happly]
    constructor
    · intro h
      obtain rfl := Except.ok.inj h
      exact ⟨by rw [String.toList_ofList], rfl, rfl⟩
    · rintro ⟨htext, hcount, hunresolved⟩
      obtain rfl := Except.ok.inj htext
      rw [← hcount, ← hunresolved, String.ofList_toList]
  · rename_i happly
    rw [happly]
    simp

theorem exists_ofSource (hlaid : s.Laid) : ∃ r, ofSource c t path s = .ok r := by
  have hfit : ∀ e ∈ edits c path s (Plan.ofSource c t s), e.Fits s.text.length := edits_fit hlaid
  have happly := Edit.apply_eq_woven hfit (edits_apart hlaid)
  unfold ofSource
  simp only [happly]
  exact ⟨_, rfl⟩

/-- A text that is read is rewritten like its source; that no marker is mentioned only shortens the way. -/
theorem exists_ofText (hlaid : s.Laid) {text : String} (hs : Source.ofText? text = some s) :
    ∃ r, ofText c t path text = .ok (r, rows r.unresolved) := by
  unfold ofText
  split
  · exact ⟨unchanged text, rfl⟩
  · obtain ⟨r, hr⟩ : ∃ r, ofSource c t path s = .ok r := exists_ofSource hlaid
    rw [hs]
    simp only [hr]
    exact ⟨r, rfl⟩

/-- Rewriting a source never fails: in the bytes of its text all edits lie in the text, no two of them overlap or have
    the same stretch, and whatever is put in behind the decorators of a method finds one. So all edits are made, and
    they give the bytes of a text. -/
theorem ofSource_never_fails (c : Settings) (t : LookupTable) (path : Option Path) (hlaid : s.Laid) :
    (∀ e ∈ (edits c path s (Plan.ofSource c t s)).map (Edit.inBytes s.text),
      e.Fits (Text.encode s.text).length) ∧
    ((edits c path s (Plan.ofSource c t s)).map (Edit.inBytes s.text)).Pairwise Edit.Apart ∧
    (∀ cls ∈ s.classes, ∀ m ∈ cls.methods, (cls.handling c t s m).isDocumented = true →
      lastDecorator? m.decorators ≠ none) ∧
    (∃ r, ofSource c t path s = .ok r ∧
      Edit.apply (Text.encode s.text) ((edits c path s (Plan.ofSource c t s)).map (Edit.inBytes s.text)) =
        .ok (Text.encode r.text.toList)) ∧
    ∀ text, Source.ofText? text = some s → ∃ r, ofText c t path text = .ok (r, rows r.unresolved) := by
  have hfit : ∀ e ∈ edits c path s (Plan.ofSource c t s), e.Fits s.text.length := edits_fit hlaid
  have hapart : (edits c path s (Plan.ofSource c t s)).Pairwise Edit.Apart := edits_apart hlaid
  refine ⟨fun e he => ?_, ?_, fun cls _ m _ hdoc hlast => ?_, ?_, fun text hs => exists_ofText hlaid hs⟩
  · obtain ⟨f, hf, rfl⟩ := List.mem_map.mp he
    exact (hfit f hf).inBytes
  · rw [List.pairwise_map]
    exact hapart.imp_of_mem fun ha hb hab => hab.inBytes (hfit _ ha) (hfit _ hb)
  · obtain ⟨mapping, o, hdoc⟩ := Handling.isDocumented_iff.mp hdoc
    have hne := decorators_ne_nil_of_documented hdoc
    cases hds : m.decorators with
    | nil => exact hne hds
    | cons d ds =>
      rw [hds] at hlast
      cases hlast
  · obtain ⟨r, hr⟩ : ∃ r, ofSource c t path s = .ok r := exists_ofSource hlaid
    exact ⟨r, hr, Edit.apply_inBytes hfit hapart (ofSource_eq_ok.mp hr).1⟩

theorem ofText_marked_users : ∃ s, Source.ofText? Users.marked = some s ∧ s.Laid ∧
    ∃ r, ofText Users.settings (Users.table ["findAll"]) none Users.marked = .ok (r, rows r.unresolved) := by
  obtain ⟨s, hread, hlaid⟩ := Users.marked_laid
  have hmade := ofSource_never_fails Users.settings (Users.table ["findAll"]) none hlaid
  exact ⟨s, hread, hlaid, hmade.2.2.2.2 Users.marked hread⟩

end Rewritten

end All

end ResponseShapes
