import ResponseShapes.Proofs.Marker.Frame
import ResponseShapes.Proofs.Syntax.SplicedClass

/-! # What edits do to each decorator

A decorator of a class or a method is covered by an edit exactly if it is given up, and a decorator is put in behind
it only if it belongs to a method that is documented and has no markers of its own. So the decorators of a method that
is not documented are all kept, as are those of a class that keeps its markers. -/

namespace ResponseShapes.Rewritten

open Syntax Syntax.Node

variable {c : Settings} {t : LookupTable} {path : Option Path} {s : Source} {cls : ClassDeclaration} {m : Method}
  {d : Decorator} {e : Edit Char}

theorem mem_edits_of_plan (h : e ∈ (Plan.ofSource c t s).edits) : e ∈ edits c path s (Plan.ofSource c t s) := by
  unfold edits
  split
  · rename_i hidle
    simp only [Bool.and_eq_true, decide_eq_true_eq] at hidle
    rw [Plan.edits_eq_nil hidle.1 hidle.2] at h
    cases h
  · exact List.mem_append_left _ h

theorem mem_edits_of_documented {mapping : Mapping} {o : MarkerOptions} (hcls : cls ∈ s.classes) (hm : m ∈ cls.methods)
    (hh : cls.handling c t s m = .documented mapping o)
    (he : e ∈ documentingEdits c.conventions s m (decoratorText c.documentation mapping o)) :
    e ∈ edits c path s (Plan.ofSource c t s) := by
  refine mem_edits_of_plan (Plan.mem_ofSource_edits.mpr ⟨cls, hcls, Or.inl ⟨m, hm, ?_⟩⟩)
  rw [hh]
  exact he

theorem documentingEdits_cases {text : String} (h : e ∈ documentingEdits c.conventions s m text) :
    (m.markers c = [] ∧ ∃ d ∈ m.decorators, e.start = d.node.stop ∧ e.stop = d.node.stop) ∨
      ∃ d ∈ m.markers c, e.start = d.node.start ∧ d.node.stop ≤ e.stop := by
  unfold documentingEdits at h
  unfold Method.markers
  cases hmarkers : markersOf c.conventions m.decorators with
  | nil =>
    rw [hmarkers] at h
    simp only [insertion] at h
    split at h
    · rename_i d hlast
      obtain rfl := List.mem_singleton.mp h
      exact Or.inl ⟨rfl, d, lastDecorator?_mem hlast, rfl, rfl⟩
    · cases h
  | cons first others =>
    rw [hmarkers] at h
    rcases List.mem_cons.mp h with rfl | h
    · exact Or.inr ⟨first, List.mem_cons_self, rfl, Nat.le_refl _⟩
    · obtain ⟨d, hd, rfl⟩ := List.mem_map.mp h
      exact Or.inr ⟨d, List.mem_cons_of_mem _ hd, rfl, Nat.le_add_right _ _⟩

theorem exists_covering (s : Source) (text : String) (hd : d ∈ m.markers c) :
    ∃ e ∈ documentingEdits c.conventions s m text, e.start = d.node.start ∧ d.node.stop ≤ e.stop := by
  unfold documentingEdits
  unfold Method.markers at hd
  cases hmarkers : markersOf c.conventions m.decorators with
  | nil =>
    rw [hmarkers] at hd
    cases hd
  | cons first others =>
    rw [hmarkers] at hd
    rcases List.mem_cons.mp hd with rfl | hd
    · exact ⟨_, List.mem_cons_self, rfl, Nat.le_refl _⟩
    · exact ⟨removal s d.node, List.mem_cons_of_mem _ (List.mem_map_of_mem hd), rfl, Nat.le_add_right _ _⟩

section Covered
variable (hlaid : s.Laid)
include hlaid

/-- A decorator is covered by an edit exactly if it is given up. -/
theorem covered_iff_givenUp (hcls : cls ∈ s.classes) (hd : d ∈ cls.allDecorators) :
    d.node.Covered (edits c path s (Plan.ofSource c t s)) ↔ GivenUp c t path s d.node := by
  have hlt := (hlaid.decorator_begins hcls hd).1.1
  constructor
  · rintro ⟨e, he, hstart, hstop⟩
    obtain ⟨n, hn, hat⟩ := (givenUp_of_mem_edits hlaid he).resolve_left (by omega)
    have hbounds := hat.bounds (hn.site.below hlaid).2
    have hbegins := (hn.site.below hlaid).2.1
    rcases (Site.decorator hcls hd).eq_or_clear hlaid hn.site with heq | hclear | hclear
    · rw [heq]
      exact hn
    · omega
    · cases hat with
      | across start_eq => omega
      | behind start_eq stop_eq => omega
  · intro h
    obtain ⟨hmark, ⟨m, hm, hdoc, hd'⟩ | ⟨hkeep, hd'⟩⟩ := h.of_decorator hlaid hcls hd
    · obtain ⟨mapping, o, hh⟩ := Handling.isDocumented_iff.mp hdoc
      obtain ⟨e, he, hcover⟩ := exists_covering s (decoratorText c.documentation mapping o)
        (mem_markersOf.mpr ⟨hd', hmark⟩)
      exact ⟨e, mem_edits_of_documented hcls hm hh he, hcover⟩
    · refine ⟨removal s d.node, mem_edits_of_plan (Plan.mem_ofSource_edits.mpr ⟨cls, hcls, Or.inr ⟨hkeep, d, ?_, rfl⟩⟩),
        rfl, Nat.le_add_right _ _⟩
      exact mem_markersOf.mpr ⟨hd', hmark⟩

/-- A plan puts something in behind a decorator only for a method that is documented and has no markers of its own. -/
theorem documented_of_plan_edit (hcls : cls ∈ s.classes) (hd : d ∈ cls.allDecorators)
    (he : e ∈ (Plan.ofSource c t s).edits) (hstart : e.start = d.node.stop) (hstop : e.stop = d.node.stop) :
    ∃ m ∈ cls.methods, d ∈ m.decorators ∧ (cls.handling c t s m).isDocumented = true ∧ m.markers c = [] := by
  have hlt := (hlaid.decorator_begins hcls hd).1.1
  obtain ⟨b, hb, ⟨m, hm, he⟩ | ⟨-, d', hd', rfl⟩⟩ := Plan.mem_ofSource_edits.mp he
  · cases hh : b.handling c t s m with
    | documented mapping o =>
      rw [hh] at he
      rcases documentingEdits_cases he with ⟨hmarkers, d', hd', hstart', -⟩ | ⟨d', hd', hstart', hstop'⟩
      · have hd'' := mem_allDecorators_of_method hm hd'
        have hlt' := (hlaid.decorator_begins hb hd'').1.1
        rcases (Site.decorator hcls hd).eq_or_clear hlaid (.decorator hb hd'') with heq | hclear | hclear
        · obtain rfl := hlaid.class_eq hcls hb hd hd'' heq
          obtain ⟨statement, outer, -, -, -, hat⟩ := Source.exists_classAt hcls
          have hsame : d = d' := by rw [hat.decorator_eq hd, hat.decorator_eq hd'', heq]
          exact ⟨m, hm, hsame ▸ hd', Handling.isDocumented_iff.mpr ⟨mapping, o, hh⟩, hmarkers⟩
        · omega
        · omega
      · have hlt' := (hlaid.decorator_begins hb (mem_allDecorators_of_method hm (mem_markersOf.mp hd').1)).1.1
        omega
    | unmarked =>
      rw [hh] at he
      cases he
    | unresolved =>
      rw [hh] at he
      cases he
  · have hlt' := (hlaid.decorator_begins hb (List.mem_append_right _ (mem_markersOf.mp hd').1)).1.1
    have hcover : (removal s d'.node).start = d'.node.start ∧ d'.node.stop ≤ (removal s d'.node).stop :=
      ⟨rfl, Nat.le_add_right _ _⟩
    omega

/-- No other edit is made behind a decorator, since imports are clear of it. -/
theorem documented_of_followed (hcls : cls ∈ s.classes) (hd : d ∈ cls.allDecorators)
    (he : e ∈ edits c path s (Plan.ofSource c t s)) (hstart : e.start = d.node.stop) (hstop : e.stop = d.node.stop) :
    ∃ m ∈ cls.methods, d ∈ m.decorators ∧ (cls.handling c t s m).isDocumented = true ∧ m.markers c = [] := by
  have hlt := (hlaid.decorator_begins hcls hd).1.1
  have himport : ∀ n ∈ s.root.childrenOf .importStatement, n.Begins s.text → e.start ≠ n.start ∧ e.start ≠ n.stop := by
    intro n hn hbegins
    have hlt' := hbegins.1
    rcases decorator_clear_import hlaid hcls hd hn with h | h
    · exact ⟨by omega, by omega⟩
    · exact ⟨by omega, by omega⟩
  rcases mem_edits he with he | ⟨x, hx, he⟩ | ⟨-, he⟩
  · exact documented_of_plan_edit hlaid hcls hd he hstart hstop
  · obtain ⟨hmem, hbegins, hlen⟩ := import_child hlaid hx
    obtain ⟨h₁, h₂⟩ := himport x.1.node hmem hbegins
    cases changeEdit_at hlen he with
    | across start_eq => exact absurd start_eq h₁
    | behind start_eq => exact absurd start_eq h₂
  · cases he with
    | behind x hx _ start_eq =>
      obtain ⟨hmem, hbegins, -⟩ := import_child hlaid hx
      exact absurd start_eq (himport x.1.node hmem hbegins).2
    | ahead x rest hchanges start_eq =>
      obtain ⟨hmem, hbegins, -⟩ := import_child hlaid (hchanges ▸ List.mem_cons_self)
      exact absurd start_eq (himport x.1.node hmem hbegins).1
    | atStart _ start_eq => omega

/-! ### Pieces -/

theorem pieceOf_of_givenUp (hcls : cls ∈ s.classes) (hd : d ∈ cls.allDecorators) (h : GivenUp c t path s d.node) :
    pieceOf (edits c path s (Plan.ofSource c t s)) d.node = .dropped ∨
      pieceOf (edits c path s (Plan.ofSource c t s)) d.node = .replaced := by
  obtain ⟨statement, outer, -, -, -, hat⟩ := Source.exists_classAt hcls
  exact pieceOf_of_covered (hat.stands hd).1 ((covered_iff_givenUp hlaid hcls hd).mpr h)

/-- A decorator that is not given up is kept, unless something is put in behind it. -/
theorem pieceOf_of_not_givenUp (hcls : cls ∈ s.classes) (hd : d ∈ cls.allDecorators)
    (h : ¬GivenUp c t path s d.node) : pieceOf (edits c path s (Plan.ofSource c t s)) d.node = .kept ∨
      pieceOf (edits c path s (Plan.ofSource c t s)) d.node = .followed ∧
        ∃ m ∈ cls.methods, d ∈ m.decorators ∧ (cls.handling c t s m).isDocumented = true ∧ m.markers c = [] := by
  obtain ⟨statement, outer, -, -, -, hat⟩ := Source.exists_classAt hcls
  rw [pieceOf_of_not_covered (hat.stands hd).1 fun hcover => h ((covered_iff_givenUp hlaid hcls hd).mp hcover)]
  split
  · rename_i hany
    obtain ⟨e, he, hends⟩ := List.any_eq_true.mp hany
    simp only [Bool.and_eq_true, decide_eq_true_eq] at hends
    exact Or.inr ⟨rfl, documented_of_followed hlaid hcls hd he hends.1 hends.2⟩
  · exact Or.inl rfl

theorem pieceOf_first {first : Decorator} {others : List Decorator} (hcls : cls ∈ s.classes) (hm : m ∈ cls.methods)
    (hdoc : (cls.handling c t s m).isDocumented = true) (hmarkers : m.markers c = first :: others) :
    pieceOf (edits c path s (Plan.ofSource c t s)) first.node = .replaced := by
  obtain ⟨mapping, o, hh⟩ := Handling.isDocumented_iff.mp hdoc
  have hfirst := (mem_markersOf.mp (hmarkers ▸ List.mem_cons_self : first ∈ m.markers c)).1
  have hd := mem_allDecorators_of_method hm hfirst
  have hlt := (hlaid.decorator_begins hcls hd).1.1
  obtain ⟨statement, outer, -, -, -, hat⟩ := Source.exists_classAt hcls
  let text := decoratorText c.documentation mapping o
  let new : Edit Char := { start := first.node.start, stop := first.node.stop, replacement := text.toList }
  have hnew : new ∈ edits c path s (Plan.ofSource c t s) := by
    refine mem_edits_of_documented hcls hm hh ?_
    unfold Method.markers at hmarkers
    simp only [documentingEdits, hmarkers]
    exact List.mem_cons_self
  refine pieceOf_of_replaced (hat.stands hd).1 ⟨new, hnew, rfl, Nat.le_refl _⟩ fun e he hstart hstop => ?_
  -- No other edit covers the marker, since no two edits overlap.
  have hsame : e = new := by
    by_contra hne
    have hsymm : Std.Symm (Edit.Apart (α := Char)) := ⟨fun _ _ h => h.symm⟩
    have hapart := ((edits_apart hlaid).forall he hnew hne).1
    have h₁ : new.start = first.node.start := rfl
    have h₂ : new.stop = first.node.stop := rfl
    omega
  intro hnil
  have htext : text.toList = [] := by rwa [hsame] at hnil
  simp [text, decoratorText] at htext

theorem pieceOf_last (hcls : cls ∈ s.classes) (hm : m ∈ cls.methods)
    (hdoc : (cls.handling c t s m).isDocumented = true) (hmarkers : m.markers c = [])
    (hlast : lastDecorator? m.decorators = some d) :
    pieceOf (edits c path s (Plan.ofSource c t s)) d.node = .followed := by
  obtain ⟨mapping, o, hh⟩ := Handling.isDocumented_iff.mp hdoc
  have hd := lastDecorator?_mem hlast
  have hd' := mem_allDecorators_of_method hm hd
  obtain ⟨statement, outer, -, -, -, hat⟩ := Source.exists_classAt hcls
  have hkept : ¬GivenUp c t path s d.node := by
    intro h
    obtain ⟨hmark, -⟩ := h.of_decorator hlaid hcls hd'
    have : d ∈ m.markers c := mem_markersOf.mpr ⟨hd, hmark⟩
    rw [hmarkers] at this
    cases this
  rw [pieceOf_of_not_covered (hat.stands hd').1 fun hcover => hkept ((covered_iff_givenUp hlaid hcls hd').mp hcover),
    if_pos]
  let text := decoratorText c.documentation mapping o
  let new : Edit Char :=
    { start := d.node.stop, stop := d.node.stop, replacement := '\n' :: s.lineIndent d.node.start ++ text.toList }
  have hnew : new ∈ edits c path s (Plan.ofSource c t s) := by
    refine mem_edits_of_documented hcls hm hh ?_
    unfold Method.markers at hmarkers
    simp only [documentingEdits, hmarkers, insertion, hlast]
    exact List.mem_singleton_self _
  exact List.any_eq_true.mpr ⟨new, hnew, by simp [new]⟩

end Covered

end ResponseShapes.Rewritten
