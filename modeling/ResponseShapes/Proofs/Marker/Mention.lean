import ResponseShapes.Proofs.Marker.Alike
import ResponseShapes.Proofs.Marker.Apart

/-! # Texts that mention no marker

A text in which the name of no marker stands is not even read. Its source would stay as it is, since the name of every
decorator stands in the text, so rewriting a text is rewriting its source (`ofText_eq_ofSource`). -/

namespace ResponseShapes

open Syntax Syntax.Node

namespace Text

theorem occursIn_iff {part xs : List Char} : occursIn part xs = true ↔ part <:+: xs := by
  induction xs with
  | nil => simp [occursIn, List.isEmpty_iff]
  | cons x xs ih =>
    rw [occursIn, Bool.or_eq_true, ih, List.isPrefixOf_iff_prefix, List.infix_cons_iff]

theorem contains_slice (s : Source) (n : Node) : contains (String.ofList s.text) (s.textOf n) = true := by
  have hinfix : s.charsOf n <:+: s.text :=
    (List.take_prefix _ _).isInfix.trans (List.drop_suffix n.start s.text).isInfix
  unfold contains Source.textOf
  rw [String.toList_ofList, String.toList_ofList]
  exact occursIn_iff.mpr hinfix

end Text

variable {c : Settings} {t : LookupTable} {path : Option Path} {s : Source} {text : String}

theorem Syntax.Source.decorator_name {n : Node} {name : String} (h : (s.decorator n).name = some name) :
    ∃ x, name = s.textOf x := by
  have hnamed : ∀ t : Node, (if t.kind = .identifier then some (s.textOf t) else none) = some name →
      ∃ x, name = s.textOf x := by
    intro t ht
    split at ht
    · exact ⟨t, (Option.some.inj ht).symm⟩
    · cases ht
  unfold Source.decorator at h
  split at h
  · cases h
  · rename_i target _
    split at h
    · cases hfunction : target.child? .function with
      | none =>
        rw [hfunction] at h
        cases h
      | some t =>
        rw [hfunction] at h
        exact hnamed t h
    · exact hnamed target h

namespace Rewritten

/-! ### A pass that does nothing -/

theorem apply_nil (xs : List Char) : Edit.apply xs ([] : List (Edit Char)) = .ok xs := by
  unfold Edit.apply Edit.inOrder
  rw [List.mergeSort_nil]
  rfl

/-- A source in which nothing is documented and nothing is removed stays as it is. -/
theorem ofSource_of_idle (hrewritten : (Plan.ofSource c t s).rewritten = 0)
    (hremoved : (Plan.ofSource c t s).removed = 0) : ofSource c t path s =
      .ok { text := String.ofList s.text, count := 0, unresolved := (Plan.ofSource c t s).unresolved } := by
  have hedits : edits c path s (Plan.ofSource c t s) = [] := by
    unfold edits
    rw [hrewritten, hremoved]
    rfl
  unfold ofSource
  simp only [hedits, apply_nil, hrewritten]

/-- In a source without markers nothing is done. -/
theorem ofSource_of_unmarked (h : ∀ cls ∈ s.classes, ∀ d ∈ cls.allDecorators, isMarker c.conventions d = false) :
    ofSource c t path s = .ok (unchanged (String.ofList s.text)) := by
  have hnone : ∀ {cls : ClassDeclaration} {ds : List Decorator}, cls ∈ s.classes → (∀ d ∈ ds, d ∈ cls.allDecorators) →
      markersOf c.conventions ds = [] := by
    intro cls ds hcls hds
    rw [markersOf, List.filter_eq_nil_iff]
    intro d hd hmark
    rw [h cls hcls d (hds d hd)] at hmark
    cases hmark
  have hclass : ∀ cls ∈ s.classes, cls.markers c = [] := fun cls hcls =>
    hnone hcls fun d hd => List.mem_append_right _ hd
  have hunmarked : ∀ cls ∈ s.classes, ∀ m ∈ cls.methods, cls.handling c t s m = .unmarked := by
    intro cls hcls m hm
    have hmarkers : m.markers c = [] := hnone hcls fun d hd => mem_allDecorators_of_method hm hd
    unfold ClassDeclaration.handling
    rw [hclass cls hcls, handlingOf_nil_of_unmarked hmarkers]
  have hrewritten : (Plan.ofSource c t s).rewritten = 0 := by
    rw [Plan.ofSource_rewritten_eq_zero]
    intro cls hcls m hm
    rw [hunmarked cls hcls m hm]
    rfl
  have hremoved : (Plan.ofSource c t s).removed = 0 := by
    rw [Plan.ofSource_removed_eq_zero]
    intro cls hcls
    refine ⟨fun m hm hdoc => ?_, fun _ => hclass cls hcls⟩
    rw [hunmarked cls hcls m hm] at hdoc
    cases hdoc
  have hunresolved : (Plan.ofSource c t s).unresolved = [] := by
    rw [Plan.unresolved_eq_nil_iff]
    intro cls hcls m hm hunres
    rw [hunmarked cls hcls m hm] at hunres
    cases hunres
  rw [ofSource_of_idle hrewritten hremoved, hunresolved]
  rfl

/-! ### Texts and sources -/

theorem unmarked_of_not_mentioned (hs : Source.ofText? text = some s) (h : mentionsMarker c.conventions text = false) :
    ∀ cls ∈ s.classes, ∀ d ∈ cls.allDecorators, isMarker c.conventions d = false := by
  intro cls hcls d hd
  obtain ⟨statement, outer, -, -, -, hat⟩ := Source.exists_classAt hcls
  rw [hat.decorator_eq hd, isMarker]
  cases hname : (s.decorator d.node).name with
  | none => rfl
  | some name =>
    rw [Option.any_some]
    by_contra hmark
    rw [Bool.not_eq_false, List.contains_iff_mem] at hmark
    obtain ⟨x, rfl⟩ := Source.decorator_name hname
    have hcontains := Text.contains_slice s x
    rw [Source.text_of_ofText? hs, String.ofList_toList] at hcontains
    rw [mentionsMarker, List.any_eq_false] at h
    exact h _ hmark hcontains

theorem ofText_eq_ofSource (hs : Source.ofText? text = some s) :
    ofText c t path text = (ofSource c t path s).map fun r => (r, rows r.unresolved) := by
  unfold ofText
  split
  · rename_i hmention
    rw [Bool.not_eq_true'] at hmention
    rw [ofSource_of_unmarked (unmarked_of_not_mentioned hs hmention), Source.text_of_ofText? hs, String.ofList_toList]
    rfl
  · simp only [hs]
    cases ofSource c t path s <;> rfl

end Rewritten

end ResponseShapes
