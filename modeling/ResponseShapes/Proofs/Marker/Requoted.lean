import Mathlib.Data.List.Basic
import ResponseShapes.Marker.Plan
import ResponseShapes.Proofs.Syntax.Unquoted

/-! # Reading a literal that was written

A written literal is read by three replacements, each over the whole of it. Together they are one reading from left to
right (`unescape_all`), and that reading meets the escapes one character of the text at a time (`unescaped_literal`). So
a text comes back if it holds no line feed (`unquote_literal_iff`); a line feed is written as an escape that the reader
leaves as it is, and each makes the text that comes back longer by one character. -/

namespace ResponseShapes

open Syntax

/-- One character of a text that was written and read again. -/
def requotedChar (c : Char) : List Char :=
  if c = '\n' then ['\\', 'n'] else [c]

theorem unescaped_literalChar (c : Char) (cs : List Char) :
    unescaped (literalChar c ++ cs) = requotedChar c ++ unescaped cs := by
  unfold literalChar requotedChar
  split
  · rename_i hquote
    have hback : isTakenBack c = true := by rw [isTakenBack, hquote, Bool.true_or]
    have hline : c ≠ '\n' := by
      rintro rfl
      exact absurd hquote (by decide)
    rw [if_neg hline, List.cons_append, List.singleton_append, unescaped, if_pos hback, List.singleton_append]
  · rename_i hquote
    rw [Bool.or_eq_true, decide_eq_true_iff, decide_eq_true_iff, not_or] at hquote
    split
    · exact verbatim_escape (by decide) cs
    · exact unescaped_cons hquote.1

theorem unescaped_literal (cs : List Char) : unescaped (cs.flatMap literalChar) = cs.flatMap requotedChar := by
  induction cs with
  | nil => rfl
  | cons c cs ih => rw [List.flatMap_cons, unescaped_literalChar, ih, List.flatMap_cons]

theorem length_requoted (cs : List Char) : (cs.flatMap requotedChar).length = cs.length + cs.count '\n' := by
  induction cs with
  | nil => rfl
  | cons c cs ih =>
    rw [List.flatMap_cons, List.length_append, ih, List.length_cons, List.count_cons, requotedChar]
    by_cases hline : c = '\n'
    · simp only [hline, if_pos, beq_self_eq_true, List.length_cons, List.length_nil]
      omega
    · simp only [hline, if_neg, beq_iff_eq, List.length_singleton, not_false_eq_true]
      omega

theorem requoted_eq {cs : List Char} (h : '\n' ∉ cs) : cs.flatMap requotedChar = cs := by
  have hkept : ∀ c ∈ cs, requotedChar c = [c] := fun c hc => if_neg (ne_of_mem_of_not_mem hc h)
  rw [List.flatMap_congr hkept, List.flatMap_singleton']

/-- What is read of a literal that was written for a text is the text itself, unless there are line feeds in it. -/
theorem unquote_literal_iff (text : String) : unquote (literal text).toList = text.toList ↔ '\n' ∉ text.toList := by
  have hread : unquote (literal text).toList = text.toList.flatMap requotedChar := by
    rw [literal, String.toList_ofList, unquote_quoted (.inl rfl), unescaped_literal]
  rw [hread]
  constructor
  · intro hsame hline
    have hlength := length_requoted text.toList
    rw [hsame, Nat.left_eq_add, List.count_eq_zero] at hlength
    exact hlength hline
  · exact requoted_eq

end ResponseShapes
