import Mathlib.Data.List.TakeWhile
import ResponseShapes.Json.Reader
import ResponseShapes.Text.JsonString

/-! # Reading what was written as JSON

Literals of plain characters and whole numbers are read back as they were written (`readText_plain`,
`readValue_repr`), and the entries of an object one after the other (`readEntries_next`). -/

namespace ResponseShapes.Json

variable {fuel : Nat} {key body cs rest : List Char} {v : Json} {c : Char}

/-! ### Plain characters -/

/-- A printable character that stands for itself in a literal. -/
def Plain (c : Char) : Prop :=
  0x20 ≤ c.toNat ∧ c.toNat ≤ 0x7E ∧ c ≠ '\x22' ∧ c ≠ '\\'

instance (c : Char) : Decidable (Plain c) :=
  inferInstanceAs (Decidable (_ ∧ _))

theorem plain_of_isDigit (h : c.isDigit = true) : Plain c := by
  have hbounds : 48 ≤ c.toNat ∧ c.toNat ≤ 57 := by
    rw [Char.isDigit, Bool.and_eq_true, decide_eq_true_iff, decide_eq_true_iff, ge_iff_le, UInt32.le_iff_toNat_le,
      UInt32.le_iff_toNat_le] at h
    exact h
  refine ⟨by omega, by omega, ?_, ?_⟩ <;> rintro rfl <;> exact absurd h (by decide)

theorem jsonChar_of_plain (h : Plain c) : Text.jsonChar c = [c] := by
  obtain ⟨hleast, hgreatest, hquote, hslash⟩ := h
  have hcontrol : ∀ d : Char, d.toNat < 0x20 → c ≠ d := by
    rintro d hd rfl
    omega
  rw [Text.jsonChar, if_neg (by simp [hquote, hslash]), if_neg (hcontrol _ (by decide)), if_neg (hcontrol _ (by decide)),
    if_neg (hcontrol _ (by decide)), if_neg (by omega), if_neg (by omega),
    if_pos (by rw [Bool.and_eq_true, decide_eq_true_iff, decide_eq_true_iff]; exact ⟨hleast, hgreatest⟩)]

theorem toList_jsonString {s : String} (h : ∀ c ∈ s.toList, Plain c) :
    (Text.jsonString s).toList = '\x22' :: s.toList ++ ['\x22'] := by
  have hbody : s.toList.flatMap Text.jsonChar = s.toList := by
    rw [List.flatMap_def, List.map_congr_left fun c hc => jsonChar_of_plain (h c hc), ← List.flatMap_def,
      List.flatMap_singleton']
  rw [Text.jsonString, hbody, String.toList_ofList]

/-! ### Texts -/

/-- A literal of plain characters is read back. -/
theorem readText_plain (h : ∀ c ∈ body, Plain c) (hfuel : body.length < fuel) (rest : List Char) :
    readText fuel (body ++ '\x22' :: rest) = .ok (body, rest) := by
  induction body generalizing fuel with
  | nil =>
    obtain ⟨fuel, rfl⟩ := Nat.exists_eq_succ_of_ne_zero (Nat.ne_of_gt hfuel)
    rw [List.nil_append, readText]
  | cons c body ih =>
    obtain ⟨fuel, rfl⟩ := Nat.exists_eq_succ_of_ne_zero (Nat.ne_zero_of_lt hfuel)
    obtain ⟨⟨hleast, -, hquote, hslash⟩, hbody⟩ := List.forall_mem_cons.mp h
    rw [List.cons_append, readText]
    · rw [if_neg (by omega), ih hbody (by simpa using hfuel)]
      rfl
    all_goals intros; simp_all

theorem readValue_text (h : ∀ c ∈ body, Plain c) (fuel : Nat) (rest : List Char) :
    readValue (fuel + 1) ('\x22' :: (body ++ '\x22' :: rest)) = .ok (.text (String.ofList body), rest) := by
  rw [readValue, readText_plain h (by simp only [List.length_append, List.length_cons]; omega)]
  rfl

/-! ### Numbers -/

theorem head_toDigits {n : Nat} (hn : n ≠ 0) : (Nat.toDigits 10 n).head? ≠ some '0' := by
  induction n using Nat.strongRecOn with
  | _ n ih =>
    by_cases hsmall : n < 10
    · have hdigits : ∀ m < 10, m ≠ 0 → m.digitChar ≠ '0' := by decide
      rw [Nat.toDigits_of_lt_base hsmall, List.head?_cons]
      exact fun h => hdigits n hsmall hn (Option.some.inj h)
    · obtain ⟨d, ds, hds⟩ := List.exists_cons_of_ne_nil (Nat.toDigits_ne_nil (b := 10) (n := n / 10))
      have hhead := ih (n / 10) (by omega) (by omega)
      rw [hds] at hhead
      rw [Nat.toDigits_of_base_le (by decide) (by omega), hds]
      exact hhead

theorem isDigit_of_mem_repr {n : Nat} (h : c ∈ n.repr.toList) : c.isDigit = true :=
  Nat.isDigit_of_mem_toDigits (by decide) (by decide) (Nat.toList_repr ▸ h)

theorem wholeDigits_repr (n : Nat) (hc : c.isDigit = false) :
    wholeDigits (n.repr.toList ++ c :: rest) = (n.repr.toList, c :: rest) := by
  by_cases hn : n = 0
  · subst hn
    rfl
  · have hhead := head_toDigits hn
    have hdigits : ∀ d ∈ n.repr.toList, d.isDigit = true := fun d => isDigit_of_mem_repr
    rw [Nat.toList_repr] at hdigits ⊢
    unfold wholeDigits
    split
    · rename_i cs heq
      obtain ⟨d, ds, hds⟩ := List.exists_cons_of_ne_nil (Nat.toDigits_ne_nil (b := 10) (n := n))
      rw [hds] at heq hhead
      exact absurd (congrArg some (List.cons.inj heq).1) hhead
    · rw [List.takeWhile_append_of_pos hdigits, List.dropWhile_append_of_pos hdigits, List.takeWhile_cons, hc,
        List.dropWhile_cons, hc]
      simp

/-- A whole number before a comma is read back, unless it has too many digits. -/
theorem readValue_repr (fuel n : Nat) (rest : List Char) :
    readValue (fuel + 1) (n.repr.toList ++ ',' :: rest) =
      (numberOf false n.repr.toList [] []).map fun v => (v, ',' :: rest) := by
  have hwhole : wholeDigits (n.repr.toList ++ ',' :: rest) = (n.repr.toList, ',' :: rest) := wholeDigits_repr n (by decide)
  have hne : n.repr.toList.isEmpty = false := by
    rw [Nat.toList_repr]
    exact List.isEmpty_eq_false_iff.mpr Nat.toDigits_ne_nil
  have hnumber : readNumber false (n.repr.toList ++ ',' :: rest) =
      (numberOf false n.repr.toList [] []).map fun v => (v, ',' :: rest) := by
    have hfraction : fractionPart (',' :: rest) = ([], ',' :: rest) := rfl
    have hexponent : exponentPart (',' :: rest) = ([], ',' :: rest) := rfl
    rw [readNumber, hwhole]
    dsimp only
    rw [hne, if_neg Bool.false_ne_true, hfraction, hexponent]
    cases numberOf false n.repr.toList [] [] <;> rfl
  obtain ⟨c, cs, hcs⟩ := List.exists_cons_of_ne_nil (List.isEmpty_eq_false_iff.mp hne)
  have hdigit : c.isDigit = true := isDigit_of_mem_repr (n := n) (hcs ▸ List.mem_cons_self)
  have hother : ∀ d : Char, d.isDigit = false → c ≠ d := by
    rintro d hd rfl
    rw [hd] at hdigit
    cases hdigit
  have hatom : readAtom (c :: (cs ++ ',' :: rest)) = readNumber false (c :: (cs ++ ',' :: rest)) := by
    have hbehind : ∀ word : String, ∀ w ws, word.toList = w :: ws → w.isDigit = false →
        behind? word (c :: (cs ++ ',' :: rest)) = none := fun word w ws hword hw => by
      rw [behind?, hword, List.isPrefixOf, beq_false_of_ne (hother w hw).symm]
      rfl
    have hwords : ∀ e ∈ named, ∃ w ws, e.1.toList = w :: ws ∧ w.isDigit = false := by
      simp only [named, List.forall_mem_cons, List.not_mem_nil, false_imp_iff, implies_true, and_true]
      exact ⟨⟨_, _, rfl, by decide⟩, ⟨_, _, rfl, by decide⟩, ⟨_, _, rfl, by decide⟩, ⟨_, _, rfl, by decide⟩,
        ⟨_, _, rfl, by decide⟩, ⟨_, _, rfl, by decide⟩⟩
    have hnone : ∀ e ∈ named, (behind? e.1 (c :: (cs ++ ',' :: rest))).map (fun rest => (e.2, rest)) = none := by
      intro e he
      obtain ⟨w, ws, hword, hw⟩ := hwords e he
      rw [hbehind e.1 w ws hword hw, Option.map_none]
    unfold readAtom
    rw [List.findSome?_eq_none_iff.mpr hnone]
    dsimp only
    split
    · rename_i heq
      exact absurd (List.cons.inj heq).1 (hother '-' (by decide))
    · rfl
  rw [← hnumber, hcs, List.cons_append, ← hatom, readValue]
  all_goals intros; simp_all

theorem skipSpace_repr (n : Nat) (rest : List Char) : skipSpace (n.repr.toList ++ rest) = n.repr.toList ++ rest := by
  obtain ⟨c, cs, hcs⟩ := List.exists_cons_of_ne_nil (l := n.repr.toList) (by
    rw [Nat.toList_repr]
    exact Nat.toDigits_ne_nil)
  have hdigit : c.isDigit = true := isDigit_of_mem_repr (n := n) (hcs ▸ List.mem_cons_self)
  have hspace : isSpace c = false := by
    by_contra hspace
    rw [Bool.not_eq_false, isSpace, Bool.or_eq_true, Bool.or_eq_true, Bool.or_eq_true] at hspace
    simp only [decide_eq_true_iff] at hspace
    obtain ((rfl | rfl) | rfl) | rfl := hspace <;> exact absurd hdigit (by decide)
  rw [hcs, List.cons_append, skipSpace, List.dropWhile_cons, hspace, if_neg Bool.false_ne_true]

/-! ### Entries -/

theorem readEntries_error {e : JsonError} (h : ∀ c ∈ key, Plain c) (hv : readValue fuel (skipSpace cs) = .error e) :
    readEntries (fuel + 1) ('\x22' :: (key ++ '\x22' :: ':' :: cs)) = .error e := by
  rw [readEntries, readText_plain h (by simp only [List.length_append, List.length_cons]; omega)]
  change (readValue fuel (skipSpace cs) >>= fun r => _) = _
  rw [hv]
  rfl

theorem readEntries_next (h : ∀ c ∈ key, Plain c) (hv : readValue fuel (skipSpace cs) = .ok (v, ',' :: rest)) :
    readEntries (fuel + 1) ('\x22' :: (key ++ '\x22' :: ':' :: cs)) =
      (readEntries fuel (skipSpace rest)).map fun r => ((String.ofList key, v) :: r.1, r.2) := by
  rw [readEntries, readText_plain h (by simp only [List.length_append, List.length_cons]; omega)]
  change (readValue fuel (skipSpace cs) >>= fun r => _) = _
  rw [hv]
  change (readEntries fuel (skipSpace rest) >>= fun r => _) = _
  cases readEntries fuel (skipSpace rest) <;> rfl

theorem readEntries_last (h : ∀ c ∈ key, Plain c) (hv : readValue fuel (skipSpace cs) = .ok (v, '\n' :: '\x7d' :: rest)) :
    readEntries (fuel + 1) ('\x22' :: (key ++ '\x22' :: ':' :: cs)) = .ok ([(String.ofList key, v)], rest) := by
  rw [readEntries, readText_plain h (by simp only [List.length_append, List.length_cons]; omega)]
  change (readValue fuel (skipSpace cs) >>= fun r => _) = _
  rw [hv]
  rfl

end ResponseShapes.Json
