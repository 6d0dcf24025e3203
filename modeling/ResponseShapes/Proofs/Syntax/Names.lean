import Mathlib.Data.Bool.AllAny
import ResponseShapes.Proofs.Syntax.Gaps
import ResponseShapes.Syntax.Grammar.Types

/-! # Names and strings in a text

A name is a word that means nothing else wherever names are read (`IsName`). Whatever begins with a word is no number,
no string, no regular expression, and begins with no sign. -/

namespace ResponseShapes.Syntax

variable {c : Char} {w ws cs rest : List Char}

/-! ### What a word is not -/

/-- A sign that no word begins with. -/
def startsNoWord (s : String) : Bool :=
  s.toList.head?.any fun c => isSign c && c != '\\'

namespace IsWord

theorem exists_head (h : IsWord w) : ∃ c cs, w = c :: cs ∧ (isSign c = true → c = '\\') ∧ c.isDigit = false := by
  obtain ⟨c, cs, rfl, hc | rfl⟩ := h.exists_cons
  · simp only [isWordStart, isWordPart, Bool.and_eq_true, Bool.not_eq_true'] at hc
    exact ⟨c, cs, rfl, fun hsign => absurd hsign (Bool.eq_false_iff.mp hc.1.2), hc.2⟩
  · exact ⟨_, cs, rfl, fun _ => rfl, by decide⟩

theorem startsWith_eq_false (h : IsWord w) {s : String} (hs : startsNoWord s = true) (rest : List Char) :
    startsWith s (w ++ rest) = false := by
  obtain ⟨c, cs, rfl, hc, -⟩ := h.exists_head
  unfold startsNoWord at hs
  unfold startsWith
  cases hlist : s.toList with
  | nil => simp [hlist] at hs
  | cons d ds =>
    simp only [hlist, List.head?_cons, Option.any_some, Bool.and_eq_true, bne_iff_ne, ne_eq] at hs
    have hne : d ≠ c := by
      rintro rfl
      exact hs.2 (hc hs.1)
    rw [List.cons_append, List.isPrefixOf_cons_cons, beq_eq_false_iff_ne.mpr hne, Bool.false_and]

theorem head_ne (h : IsWord w) {d : Char} (hd : isSign d = true) (hne : d ≠ '\\') : ∃ c cs, w = c :: cs ∧ c ≠ d := by
  obtain ⟨c, cs, rfl, hc, -⟩ := h.exists_head
  refine ⟨c, cs, rfl, ?_⟩
  rintro rfl
  exact hne (hc hd)

theorem stringLength_eq_zero (h : IsWord w) (rest : List Char) : stringLength (w ++ rest) = 0 := by
  obtain ⟨c, cs, rfl, hc, -⟩ := h.exists_head
  have hquote : (c == '\x27' || c == '\x22') = false := by
    by_contra hquote
    rw [Bool.not_eq_false, Bool.or_eq_true, beq_iff_eq, beq_iff_eq] at hquote
    obtain rfl | rfl := hquote <;> exact absurd (hc (by decide)) (by decide)
  rw [List.cons_append, stringLength, hquote]
  rfl

theorem regexLength_eq_zero (h : IsWord w) (rest : List Char) : regexLength (w ++ rest) = 0 := by
  obtain ⟨c, cs, rfl, hne⟩ := h.head_ne (d := '/') (by decide) (by decide)
  unfold regexLength
  split <;> simp_all

theorem privateNameLength_eq_zero (h : IsWord w) (rest : List Char) : privateNameLength (w ++ rest) = 0 := by
  obtain ⟨c, cs, rfl, hne⟩ := h.head_ne (d := '#') (by decide) (by decide)
  unfold privateNameLength
  split <;> simp_all

theorem numberLength_eq_zero (h : IsWord w) (rest : List Char) : numberLength (w ++ rest) = 0 := by
  obtain ⟨c, cs, rfl, hc, hdigit⟩ := h.exists_head
  have hdot : c ≠ '.' := by
    rintro rfl
    exact absurd (hc (by decide)) (by decide)
  have hzero : c ≠ '0' := by
    rintro rfl
    exact absurd hdigit (by decide)
  unfold numberLength
  split <;> simp_all

end IsWord

/-! ### Characters of words -/

theorem isSpace_of_isHexDigit {c : Char} (h : isHexDigit c = true) : isSpace c = false := by
  simp only [isHexDigit, Bool.or_eq_true, Bool.and_eq_true, decide_eq_true_eq, Char.isDigit, Char.le_def,
    UInt32.le_iff_toNat_le, ge_iff_le] at h
  have hlow : 0x30 ≤ c.toNat ∧ c.toNat ≤ 0x66 := by
    obtain (h | h) | h := h
    · exact ⟨h.1, Nat.le_trans h.2 (by decide)⟩
    · exact ⟨Nat.le_trans (by decide) h.1, h.2⟩
    · exact ⟨Nat.le_trans (by decide) h.1, Nat.le_trans h.2 (by decide)⟩
  obtain ⟨hlow, hhigh⟩ := hlow
  simp only [isSpace, Bool.or_eq_false_iff, Bool.and_eq_false_iff, beq_eq_false_iff_ne, decide_eq_false_iff_not]
  omega

theorem isSpace_of_isWordPart {c : Char} (h : isWordPart c = true) : isSpace c = false := by
  rw [isWordPart, Bool.and_eq_true, Bool.and_eq_true, Bool.not_eq_true'] at h
  exact h.1.2

/-- No blank stands in a word. -/
theorem forall_mem_wordTail (escaped : Bool) (cs : List Char) : ∀ c ∈ cs.take (wordTail escaped cs), isSpace c = false := by
  have hfront : ∀ (front : List Char) {n} {ds : List Char}, (∀ c ∈ front, isSpace c = false) →
      (∀ c ∈ ds.take n, isSpace c = false) → ∀ c ∈ (front ++ ds).take (front.length + n), isSpace c = false :=
    fun front {n ds} hfront hds => by
      rw [List.take_length_add_append]
      exact List.forall_mem_append.mpr ⟨hfront, hds⟩
  fun_induction wordTail escaped cs with
  | case2 escaped cs h ih => exact hfront ['\\', 'u', '\x7b'] (List.all_iff_forall_prop.mp rfl) ih
  | case3 escaped h₁ h₂ h₃ h₄ cs _ hhex ih =>
    rw [Bool.and_eq_true, List.all_eq_true] at hhex
    have hu : ∀ c ∈ ['\\', 'u'], isSpace c = false := List.all_iff_forall_prop.mp rfl
    have hdigits : ∀ c ∈ [h₁, h₂, h₃, h₄], isSpace c = false := fun c hc => isSpace_of_isHexDigit (hhex.2 c hc)
    exact hfront ['\\', 'u', h₁, h₂, h₃, h₄] (List.forall_mem_append.mpr ⟨hu, hdigits⟩) ih
  | case5 c cs _ _ hhex ih => exact hfront [c] (List.forall_mem_singleton.mpr (isSpace_of_isHexDigit hhex)) ih
  | case6 c cs _ _ _ hbrace ih =>
    have hc : isSpace c = false := by
      rw [beq_iff_eq.mp hbrace]
      decide
    exact hfront [c] (List.forall_mem_singleton.mpr hc) ih
  | case8 escaped c cs _ _ _ hpart ih => exact hfront [c] (List.forall_mem_singleton.mpr (isSpace_of_isWordPart hpart)) ih
  | _ => exact List.forall_mem_nil _

theorem IsWord.forall_mem {w : List Char} (h : IsWord w) : ∀ c ∈ w, isSpace c = false := by
  have hlength := h.length_eq [] rfl
  have htail := forall_mem_wordTail false w
  rw [List.append_nil] at hlength
  obtain ⟨c, cs, rfl⟩ := List.exists_cons_of_ne_nil h.nonempty
  rw [wordLength] at hlength
  split at hlength
  · rwa [hlength, List.take_length] at htail
  · cases hlength

/-! ### Names -/

/-- Words that mean something else where a name is read. -/
def specialWords : List String :=
  Grammar.reserved ++ Grammar.predefinedTypes ++ ["async", "await", "yield", "true", "false", "null", "undefined", "this",
    "super", "implements", "readonly", "keyof", "infer", "abstract", "unique", "type"]

/-- A word that is read as a name. -/
structure IsName (w : List Char) : Prop where
  word : IsWord w
  plain : String.ofList w ∉ specialWords

theorem IsName.wordAt_ne (h : IsName w) (hrest : endsWord rest = true) {s : String} (hs : s ∈ specialWords) :
    wordAt (w ++ rest) ≠ s := by
  rw [h.word.wordAt_append hrest]
  rintro rfl
  exact h.plain hs

theorem IsName.wordAt_notMem (h : IsName w) (hrest : endsWord rest = true) {words : List String}
    (hwords : words ⊆ specialWords) : words.contains (wordAt (w ++ rest)) = false := by
  rw [← Bool.not_eq_true, List.contains_iff_mem]
  exact fun hmem => h.wordAt_ne hrest (hwords hmem) rfl

/-! ### Strings -/

/-- The characters are a string literal, whatever follows. -/
structure IsString (w : List Char) : Prop where
  quoted : ∃ q cs, w = q :: cs ∧ (q = '\x27' ∨ q = '\x22')
  length_eq : ∀ rest, stringLength (w ++ rest) = w.length

theorem IsString.solid (h : IsString w) (rest : List Char) : Solid (w ++ rest) := by
  obtain ⟨q, cs, rfl, rfl | rfl⟩ := h.quoted
  · exact solid_cons (by decide) (by decide) _
  · exact solid_cons (by decide) (by decide) _

theorem IsString.ne_nil (h : IsString w) : w ≠ [] := by
  obtain ⟨q, cs, rfl, -⟩ := h.quoted
  exact List.cons_ne_nil _ _

theorem IsString.wordLength_eq_zero (h : IsString w) (rest : List Char) : wordLength (w ++ rest) = 0 := by
  obtain ⟨q, cs, rfl, rfl | rfl⟩ := h.quoted <;> rfl

theorem IsString.startsWith_eq_false (h : IsString w) {s : String}
    (hs : (s.toList.head?.any fun c => c != '\x27' && c != '\x22') = true) (rest : List Char) :
    startsWith s (w ++ rest) = false := by
  unfold startsWith
  cases hlist : s.toList with
  | nil => simp [hlist] at hs
  | cons d ds =>
    simp only [hlist, List.head?_cons, Option.any_some, Bool.and_eq_true, bne_iff_ne, ne_eq] at hs
    obtain ⟨q, cs, rfl, hq⟩ := h.quoted
    have hne : d ≠ q := by
      rintro rfl
      exact hq.elim hs.1 hs.2
    rw [List.cons_append, List.isPrefixOf_cons_cons, beq_eq_false_iff_ne.mpr hne, Bool.false_and]

end ResponseShapes.Syntax
