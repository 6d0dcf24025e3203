import Mathlib.Data.List.Basic
import ResponseShapes.Syntax.Lexeme

/-! # Gaps and words in front of a text

Blanks and line comments are gaps: whatever begins with no gap follows them at once (`IsGap`, `Skips`). A word stands
for itself in front of whatever does not go on with it (`IsWord`). -/

namespace ResponseShapes.Syntax

variable {c : Char} {cs ws body gap rest : List Char}

/-! ### Gaps -/

/-- No gap is at the front of the text. -/
def Solid (cs : List Char) : Prop :=
  ∀ position, scanGap isSpace position .between cs = { comments := [], position, rest := cs }

theorem scanGap_cons (blank : Char → Bool) (hslash : c ≠ '/') (cs : List Char) (position : Nat) :
    scanGap blank position .between (c :: cs) = if blank c then scanGap blank (position + 1) .between cs
      else { comments := [], position, rest := c :: cs } := by
  conv_lhs => unfold scanGap
  split <;> simp_all

theorem solid_nil : Solid [] :=
  fun _ => rfl

theorem solid_cons (hspace : isSpace c = false) (hslash : c ≠ '/') (cs : List Char) : Solid (c :: cs) := fun position => by
  rw [scanGap_cons _ hslash, hspace]
  rfl

/-- Between the text and what follows it there is a gap. -/
def IsGap (gap : List Char) : Prop :=
  ∀ rest, Solid rest → ∀ position, ∃ comments,
    scanGap isSpace position .between (gap ++ rest) = { comments, position := position + gap.length, rest }

theorem ne_slash_of_isSpace (h : isSpace c = true) : c ≠ '/' := by
  rintro rfl
  exact absurd h (by decide)

theorem scanGap_blanks (hws : ws.all isSpace = true) (cs : List Char) (position : Nat) :
    scanGap isSpace position .between (ws ++ cs) = scanGap isSpace (position + ws.length) .between cs := by
  induction ws generalizing position with
  | nil => rfl
  | cons c ws ih =>
    obtain ⟨hc, hws⟩ := Bool.and_eq_true_iff.mp hws
    rw [List.cons_append, scanGap_cons _ (ne_slash_of_isSpace hc), if_pos hc, ih hws, List.length_cons]
    congr 1
    omega

theorem isGap_blanks (hws : ws.all isSpace = true) : IsGap ws := fun rest hrest position =>
  ⟨[], by rw [scanGap_blanks hws, hrest]⟩

/-- A line comment goes to the end of its line. -/
theorem scanGap_line (hbody : ∀ c ∈ body, isLineBreak c = false ∧ c ≠ '\r') (cs : List Char) (start position : Nat) :
    scanGap isSpace position (.line start) (body ++ '\n' :: cs) =
      (scanGap isSpace (position + body.length + 1) .between cs).withComment start (position + body.length) := by
  induction body generalizing position with
  | nil => rfl
  | cons c body ih =>
    obtain ⟨⟨hline, hreturn⟩, hbody⟩ := List.forall_mem_cons.mp hbody
    have hend : (isLineBreak c || c == '\r') = false := by rw [hline, Bool.false_or, beq_eq_false_iff_ne.mpr hreturn]
    have hposition : position + (body.length + 1) = position + 1 + body.length := by omega
    rw [List.cons_append, scanGap, hend, if_neg Bool.false_ne_true, ih hbody, List.length_cons, hposition]

theorem isGap_comment (hbody : ∀ c ∈ body, isLineBreak c = false ∧ c ≠ '\r') (hgap : IsGap gap) :
    IsGap ('/' :: '/' :: body ++ '\n' :: gap) := by
  intro rest hrest position
  obtain ⟨comments, hscan⟩ := hgap rest hrest (position + 2 + body.length + 1)
  refine ⟨(position, position + 2 + body.length) :: comments, ?_⟩
  rw [List.append_assoc, List.cons_append, List.cons_append, List.cons_append, scanGap, scanGap_line hbody, hscan,
    Gap.withComment]
  congr 1
  simp only [List.length_append, List.length_cons]
  omega

theorem IsGap.behind (hws : ws.all isSpace = true) (hgap : IsGap gap) : IsGap (ws ++ gap) := by
  intro rest hrest position
  obtain ⟨comments, hscan⟩ := hgap rest hrest (position + ws.length)
  refine ⟨comments, ?_⟩
  rw [List.append_assoc, scanGap_blanks hws, hscan, List.length_append, Nat.add_assoc]

/-- The gap at the front of a text ends where another text begins. -/
structure Skips (cs rest : List Char) : Prop where
  rest_eq : ∀ position, (scanGap isSpace position .between cs).rest = rest
  solid : Solid rest

theorem Skips.of_solid (h : Solid rest) : Skips rest rest :=
  ⟨fun position => by rw [h], h⟩

theorem IsGap.skips (hgap : IsGap gap) (h : Solid rest) : Skips (gap ++ rest) rest := by
  refine ⟨fun position => ?_, h⟩
  obtain ⟨comments, hscan⟩ := hgap rest h position
  rw [hscan]

theorem Skips.skipGap_eq (h : Skips cs rest) : skipGap cs = rest :=
  h.rest_eq 0

/-! ### Words -/

/-- Whether a word ends in front of the text. -/
def endsWord (cs : List Char) : Bool :=
  !cs.head?.any fun c => isWordPart c || c == '\\'

/-- The characters are a word, whatever follows that does not go on with it. -/
structure IsWord (w : List Char) : Prop where
  nonempty : w ≠ []
  length_eq : ∀ rest, endsWord rest = true → wordLength (w ++ rest) = w.length

theorem ne_backslash_of_isWordPart (h : isWordPart c = true) : c ≠ '\\' := by
  rintro rfl
  exact absurd h (by decide)

theorem wordTail_cons (hc : c ≠ '\\') (cs : List Char) :
    wordTail false (c :: cs) = if isWordPart c then 1 + wordTail false cs else 0 := by
  conv_lhs => unfold wordTail
  split <;> simp_all

theorem wordTail_of_endsWord (h : endsWord rest = true) : wordTail false rest = 0 := by
  cases rest with
  | nil => rfl
  | cons c rest =>
    simp only [endsWord, List.head?_cons, Option.any_some, Bool.not_eq_true', Bool.or_eq_false_iff] at h
    rw [wordTail_cons (fun hc => by simp [hc] at h), h.1]
    rfl

theorem wordTail_append (hw : cs.all isWordPart = true) (h : endsWord rest = true) :
    wordTail false (cs ++ rest) = cs.length := by
  induction cs with
  | nil => exact wordTail_of_endsWord h
  | cons c cs ih =>
    obtain ⟨hc, hcs⟩ := Bool.and_eq_true_iff.mp hw
    rw [List.cons_append, wordTail_cons (ne_backslash_of_isWordPart hc), if_pos hc, ih hcs, List.length_cons, Nat.add_comm]

/-- Characters of words are a word, unless a digit begins them. -/
theorem isWord_of_all (hc : isWordStart c = true) (hcs : cs.all isWordPart = true) : IsWord (c :: cs) := by
  refine ⟨List.cons_ne_nil _ _, fun rest hrest => ?_⟩
  have hpart : isWordPart c = true := (Bool.and_eq_true_iff.mp hc).1
  rw [List.cons_append, wordLength, hc, Bool.true_or, if_pos rfl, ← List.cons_append,
    wordTail_append (by rw [List.all_cons, hpart, hcs]; rfl) hrest]

namespace IsWord

variable {w : List Char}

theorem wordAt_append (h : IsWord w) (hrest : endsWord rest = true) : wordAt (w ++ rest) = String.ofList w := by
  rw [wordAt, h.length_eq rest hrest, List.take_left']
  rfl

theorem exists_cons (h : IsWord w) : ∃ c cs, w = c :: cs ∧ (isWordStart c = true ∨ c = '\\') := by
  obtain ⟨c, cs, rfl⟩ := List.exists_cons_of_ne_nil h.nonempty
  refine ⟨c, cs, rfl, ?_⟩
  have hlength := h.length_eq [] rfl
  rw [List.append_nil, wordLength] at hlength
  split at hlength
  · rename_i hstart
    simp only [Bool.or_eq_true, Bool.and_eq_true, beq_iff_eq] at hstart
    exact hstart.imp id And.left
  · simp at hlength

theorem solid (h : IsWord w) (rest : List Char) : Solid (w ++ rest) := by
  obtain ⟨c, cs, rfl, hc | rfl⟩ := h.exists_cons
  · have hpart : isWordPart c = true := (Bool.and_eq_true_iff.mp hc).1
    simp only [isWordPart, Bool.and_eq_true, Bool.not_eq_true'] at hpart
    refine solid_cons hpart.1.2 ?_ _
    rintro rfl
    exact absurd hpart.2 (by decide)
  · exact solid_cons (by decide) (by decide) _

end IsWord

end ResponseShapes.Syntax
