import Mathlib.Data.List.Basic
import ResponseShapes.Project.Glob

/-! # The ends of what a glob describes

What a glob describes ends with the literal characters at the end of the glob, perhaps before a line feed. -/

namespace ResponseShapes

theorem exists_suffix_of_afterRun {passed : Char → Bool} {p : List Char → Bool} {cs : List Char}
    (h : afterRun passed p cs = true) : ∃ rest, rest <:+ cs ∧ p rest = true := by
  induction cs with
  | nil => exact ⟨[], List.suffix_refl _, h⟩
  | cons c cs ih =>
    rw [afterRun, Bool.or_eq_true, Bool.and_eq_true] at h
    obtain h | ⟨-, h⟩ := h
    · exact ⟨c :: cs, List.suffix_refl _, h⟩
    · obtain ⟨rest, hrest, hp⟩ := ih h
      exact ⟨rest, hrest.trans (List.suffix_cons c cs), hp⟩

namespace GlobToken

theorem exists_suffix_of_afterSlash {p : List Char → Bool} {cs : List Char} (h : afterSlash p cs = true) :
    ∃ rest, rest <:+ cs ∧ p rest = true := by
  induction cs with
  | nil => cases h
  | cons c cs ih =>
    rw [afterSlash, Bool.or_eq_true, Bool.and_eq_true, Bool.and_eq_true] at h
    obtain ⟨-, h⟩ | ⟨-, h⟩ := h
    · exact ⟨cs, List.suffix_cons c cs, h⟩
    · obtain ⟨rest, hrest, hp⟩ := ih h
      exact ⟨rest, hrest.trans (List.suffix_cons c cs), hp⟩

theorem describes_literals {ending cs : List Char} (h : describes (ending.map literal) cs = true) :
    cs = ending ∨ cs = ending ++ ['\n'] := by
  induction ending generalizing cs with
  | nil => simpa [describes] using h
  | cons d ending ih =>
    cases cs with
    | nil => cases h
    | cons c cs =>
      rw [List.map_cons, describes, Bool.and_eq_true, decide_eq_true_iff] at h
      obtain ⟨rfl, h⟩ := h
      exact (ih h).imp (congrArg (c :: ·)) (congrArg (c :: ·))

/-- What parts that end with literal characters describe ends with these. -/
theorem suffix_of_describes (ts : List GlobToken) {ending cs : List Char}
    (h : describes (ts ++ ending.map literal) cs = true) : ending <:+ cs ∨ ending ++ ['\n'] <:+ cs := by
  induction ts generalizing cs with
  | nil =>
    obtain rfl | rfl := describes_literals h
    · exact .inl (List.suffix_refl _)
    · exact .inr (List.suffix_refl _)
  | cons t ts ih =>
    suffices hrest : ∃ rest, rest <:+ cs ∧ describes (ts ++ ending.map literal) rest = true by
      obtain ⟨rest, hsuffix, hrest⟩ := hrest
      exact (ih hrest).imp (·.trans hsuffix) (·.trans hsuffix)
    rw [List.cons_append] at h
    cases t with
    | directories =>
      rw [describes, Bool.or_eq_true] at h
      exact h.elim (fun h => ⟨cs, List.suffix_refl _, h⟩) exists_suffix_of_afterSlash
    | anything => exact exists_suffix_of_afterRun h
    | withinName => exact exists_suffix_of_afterRun h
    | one =>
      cases cs with
      | nil => cases h
      | cons c cs => exact ⟨cs, List.suffix_cons c cs, (Bool.and_eq_true_iff.mp h).2⟩
    | literal d =>
      cases cs with
      | nil => cases h
      | cons c cs => exact ⟨cs, List.suffix_cons c cs, (Bool.and_eq_true_iff.mp h).2⟩

end GlobToken

end ResponseShapes
