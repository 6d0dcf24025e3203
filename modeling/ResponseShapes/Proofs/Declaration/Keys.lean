import ResponseShapes.Declaration.Module
import ResponseShapes.Proofs.Syntax.Objects
import ResponseShapes.Proofs.Syntax.Unquoted

/-! # Keys read back

A name becomes a key as it is, or as a string literal in ASCII. Both are read as keys (`isKey_propertyKey`), but a
reader of literals takes back no more than escaped quotes and backslashes. So a name of word characters comes back
exactly if all of them are ASCII (`reread_eq_iff`). -/

namespace ResponseShapes

open Syntax

variable {c quote : Char} {cs cs' : List Char} {name : String}

/-! ### Strings -/

/-- A string with the characters in it goes on behind them. -/
def Skipped (quote : Char) (cs : List Char) : Prop :=
  ∀ rest, stringTail quote (cs ++ rest) = (stringTail quote rest).map (· + cs.length)

theorem skipped_nil : Skipped quote [] := fun rest => by
  cases h : stringTail quote rest <;> simp [h]

theorem Skipped.append (h : Skipped quote cs) (h' : Skipped quote cs') : Skipped quote (cs ++ cs') := fun rest => by
  rw [List.append_assoc, h, h', Option.map_map, List.length_append, Nat.add_comm cs.length]
  simp only [Function.comp_def, Nat.add_assoc]

theorem skipped_flatMap {α : Type} {xs : List α} {f : α → List Char} (h : ∀ x ∈ xs, Skipped quote (f x)) :
    Skipped quote (xs.flatMap f) := by
  induction xs with
  | nil => exact skipped_nil
  | cons x xs ih =>
    obtain ⟨hx, hxs⟩ := List.forall_mem_cons.mp h
    exact hx.append (ih hxs)

theorem skipped_escape (hc : c ≠ '\r') : Skipped quote ['\\', c] := fun rest => by
  rw [List.cons_append, List.singleton_append, stringTail]
  · rfl
  · rintro cs rfl
    exact fun _ => hc rfl

/-- Characters that stand for themselves in a string. -/
def isBare (quote c : Char) : Bool :=
  c != quote && c != '\\' && c != '\n' && c != '\r'

theorem skipped_of_isBare (h : ∀ c ∈ cs, isBare quote c = true) : Skipped quote cs := by
  rw [← List.flatMap_singleton' cs]
  refine skipped_flatMap fun c hc rest => ?_
  have hbare := h c hc
  simp only [isBare, Bool.and_eq_true, bne_iff_ne] at hbare
  rw [List.singleton_append, stringTail.eq_def]
  split <;> simp_all

theorem isString_of_skipped (hquote : quote = '\x27' ∨ quote = '\x22') (h : Skipped quote cs) :
    IsString (quote :: cs ++ [quote]) := by
  refine ⟨⟨quote, cs ++ [quote], rfl, hquote⟩, fun rest => ?_⟩
  have hend : stringTail quote (quote :: rest) = some 1 := by
    obtain rfl | rfl := hquote <;> rfl
  have hopening : (quote == '\x27' || quote == '\x22') = true := by
    obtain rfl | rfl := hquote <;> rfl
  rw [List.append_assoc, List.cons_append, stringLength, if_pos hopening, List.singleton_append, h, hend, Option.map_some]
  simp only [List.length_append, List.length_cons, List.length_nil]
  omega

/-! ### Literals -/

/-- The characters that write a character by its numbers. -/
def numbered (c : Char) : List Char :=
  (Text.units c).flatMap fun n => '\\' :: 'u' :: Text.hex 4 n

theorem jsonChar_cases (c : Char) : (∃ d, d ≠ '\r' ∧ Text.jsonChar c = ['\\', d]) ∨
    (isBare '\x22' c = true ∧ Text.jsonChar c = [c]) ∨ Text.jsonChar c = numbered c := by
  unfold Text.jsonChar
  split
  · rename_i hquote
    refine .inl ⟨c, ?_, rfl⟩
    rintro rfl
    exact absurd hquote (by decide)
  rename_i hquote
  split
  · exact .inl ⟨'n', by decide, rfl⟩
  rename_i hline
  split
  · exact .inl ⟨'r', by decide, rfl⟩
  rename_i hreturn
  split
  · exact .inl ⟨'t', by decide, rfl⟩
  split
  · exact .inl ⟨'b', by decide, rfl⟩
  split
  · exact .inl ⟨'f', by decide, rfl⟩
  split
  · refine .inr (.inl ⟨?_, rfl⟩)
    simp only [Bool.or_eq_true, decide_eq_true_eq, not_or] at hquote
    simp only [isBare, Bool.and_eq_true, bne_iff_ne]
    exact ⟨⟨⟨hquote.1, hquote.2⟩, hline⟩, hreturn⟩
  · exact .inr (.inr rfl)

theorem forall_mem_hex {holds : Char → Prop} (h : ∀ n < 16, holds (Text.hexDigit n)) (width n : Nat) :
    ∀ c ∈ Text.hex width n, holds c := by
  induction width generalizing n with
  | zero => exact List.forall_mem_nil _
  | succ width ih =>
    rw [Text.hex]
    exact List.forall_mem_append.mpr ⟨ih _, List.forall_mem_singleton.mpr (h _ (Nat.mod_lt _ (by decide)))⟩

theorem skipped_numbered (c : Char) : Skipped '\x22' (numbered c) := by
  refine skipped_flatMap fun n _ => ?_
  have hu : Skipped '\x22' ['\\', 'u'] := skipped_escape (by decide)
  exact hu.append (skipped_of_isBare (forall_mem_hex (by decide) 4 n))

theorem skipped_jsonChar (c : Char) : Skipped '\x22' (Text.jsonChar c) := by
  obtain ⟨d, hd, hc⟩ | ⟨hbare, hc⟩ | hc := jsonChar_cases c
  · exact hc ▸ skipped_escape hd
  · exact hc ▸ skipped_of_isBare (List.forall_mem_singleton.mpr hbare)
  · exact hc ▸ skipped_numbered c

theorem isString_jsonString (name : String) : IsString (Text.jsonString name).toList := by
  rw [Text.jsonString, String.toList_ofList]
  exact isString_of_skipped (.inr rfl) (skipped_flatMap fun c _ => skipped_jsonChar c)

/-! ### Keys -/

theorem ascii_of_isKeyPart (h : (isKeyStart c || c.isDigit) = true) : c.toNat < 0x7F := by
  delta isKeyStart Char.isAlpha Char.isUpper Char.isLower at h
  simp only [Bool.or_eq_true, beq_iff_eq, Char.isDigit, Bool.and_eq_true, decide_eq_true_eq, ge_iff_le,
    UInt32.le_iff_toNat_le] at h
  obtain (((h | h) | rfl) | rfl) | h := h
  · exact Nat.lt_of_le_of_lt h.2 (by decide)
  · exact Nat.lt_of_le_of_lt h.2 (by decide)
  · decide
  · decide
  · exact Nat.lt_of_le_of_lt h.2 (by decide)

theorem isWordPart_of_isKeyPart (h : (isKeyStart c || c.isDigit) = true) :
    isWordPart c = true := by
  have hall : ∀ n < 0x7F, (isKeyStart (Char.ofNat n) || (Char.ofNat n).isDigit) = true → isWordPart (Char.ofNat n) = true := by
    decide +kernel
  have := hall c.toNat (ascii_of_isKeyPart h)
  rw [Char.ofNat_toNat] at this
  exact this h

theorem isWordStart_of_isKeyStart (h : isKeyStart c = true) : isWordStart c = true := by
  have hall : ∀ n < 0x7F, isKeyStart (Char.ofNat n) = true → (Char.ofNat n).isDigit = false := by
    decide +kernel
  have hpart : (isKeyStart c || c.isDigit) = true := by rw [h, Bool.true_or]
  have := hall c.toNat (ascii_of_isKeyPart hpart)
  rw [Char.ofNat_toNat] at this
  rw [isWordStart, isWordPart_of_isKeyPart hpart, this h]
  rfl

theorem exists_of_isPlainKey (h : isPlainKey name = true) (hline : name.toList.getLast? ≠ some '\n') :
    ∃ c cs, name.toList = c :: cs ∧ isKeyStart c = true ∧ cs.all (fun d => isKeyStart d || d.isDigit) = true := by
  unfold isPlainKey at h
  split at h
  · cases h
  · rename_i c cs hname
    rw [hname] at hline ⊢
    have hlast : cs.getLast? ≠ some '\n' := by
      intro hlast
      cases cs with
      | nil => cases hlast
      | cons d ds => exact hline (by rw [List.getLast?_cons_cons, hlast])
    rw [if_neg hlast] at h
    exact ⟨c, cs, rfl, Bool.and_eq_true_iff.mp h⟩

theorem isWord_of_isPlainKey (h : isPlainKey name = true) (hline : name.toList.getLast? ≠ some '\n') : IsWord name.toList := by
  obtain ⟨c, cs, hname, hc, hcs⟩ := exists_of_isPlainKey h hline
  rw [hname]
  exact isWord_of_all (isWordStart_of_isKeyStart hc)
    (List.all_eq_true.mpr fun d hd => isWordPart_of_isKeyPart (List.all_eq_true.mp hcs d hd))

/-- The kind of node that a name is as a key. -/
def keyKind (name : String) : Kind :=
  if isPlainKey name then .propertyIdentifier else .string

/-- The name that a reader takes the key of a name for. -/
def reread (name : String) : String :=
  if isPlainKey name then name else String.ofList (unquote (Text.jsonString name).toList)

/-- The name does not end with a line feed, unless it is quoted as a key. -/
def StaysInLine (name : String) : Prop :=
  isPlainKey name = true → name.toList.getLast? ≠ some '\n'

theorem staysInLine_of_isWordPart (h : ∀ c ∈ name.toList, isWordPart c = true) : StaysInLine name := fun _ hlast =>
  absurd (h _ (List.mem_of_getLast? hlast)) (by decide)

theorem isKey_propertyKey (hline : StaysInLine name) : IsKey (propertyKey name).toList (keyKind name) := by
  rw [propertyKey, keyKind]
  split
  · rename_i h
    exact .word (isWord_of_isPlainKey h (hline h))
  · exact .string (isString_jsonString name)

/-! ### Names of word characters -/

theorem verbatim_numbered (c : Char) : Verbatim (numbered c) := by
  refine verbatim_flatMap fun n _ => ?_
  have hu : Verbatim ['\\', 'u'] := verbatim_escape (by decide)
  exact hu.append (verbatim_of_ne (forall_mem_hex (by decide) 4 n))

theorem jsonChar_of_isWordPart (h : isWordPart c = true) :
    Text.jsonChar c = if c.toNat ≤ 0x7E then [c] else numbered c := by
  have hne : ∀ {d}, isWordPart d = false → c ≠ d := by
    rintro d hd rfl
    exact Bool.false_ne_true (hd.symm.trans h)
  have hprinted : 0x20 ≤ c.toNat := by
    rw [isWordPart, Bool.and_eq_true, Bool.and_eq_true, decide_eq_true_eq] at h
    exact h.1.1
  have hquote : ¬(decide (c = '\x22') || decide (c = '\\')) = true := by
    rw [Bool.or_eq_true, decide_eq_true_eq, decide_eq_true_eq]
    exact not_or.mpr ⟨hne (by decide), hne (by decide)⟩
  rw [Text.jsonChar, if_neg hquote, if_neg (hne (by decide)), if_neg (hne (by decide)), if_neg (hne (by decide)),
    if_neg (by omega), if_neg (by omega), decide_eq_true hprinted, Bool.true_and]
  simp only [decide_eq_true_eq, numbered]

theorem verbatim_jsonChar (h : isWordPart c = true) : Verbatim (Text.jsonChar c) := by
  rw [jsonChar_of_isWordPart h]
  split
  · exact verbatim_of_ne (List.forall_mem_singleton.mpr (ne_backslash_of_isWordPart h))
  · exact verbatim_numbered c

theorem exists_numbered (c : Char) : ∃ cs, numbered c = '\\' :: cs := by
  unfold numbered Text.units
  split <;> exact ⟨_, rfl⟩

/-- Word characters are written as they are exactly if they are ASCII. -/
theorem flatMap_jsonChar_eq_iff (h : ∀ c ∈ cs, isWordPart c = true) :
    cs.flatMap Text.jsonChar = cs ↔ ∀ c ∈ cs, c.toNat ≤ 0x7E := by
  induction cs with
  | nil => exact iff_of_true rfl (List.forall_mem_nil _)
  | cons c cs ih =>
    obtain ⟨hc, hcs⟩ := List.forall_mem_cons.mp h
    rw [List.flatMap_cons, jsonChar_of_isWordPart hc, List.forall_mem_cons, ← ih hcs]
    split
    · rename_i hascii
      rw [List.singleton_append, List.cons_inj_right]
      exact (and_iff_right hascii).symm
    · rename_i hascii
      refine iff_of_false (fun heq => ?_) fun hall => hascii hall.1
      obtain ⟨ds, hds⟩ := exists_numbered c
      rw [hds, List.cons_append] at heq
      exact ne_backslash_of_isWordPart hc (List.cons.inj heq).1.symm

/-- A name of word characters is read as what is written between quotes for it. -/
theorem reread_eq (h : ∀ c ∈ name.toList, isWordPart c = true) :
    reread name = String.ofList (name.toList.flatMap Text.jsonChar) := by
  unfold reread
  split
  · rename_i hplain
    have hline : name.toList.getLast? ≠ some '\n' := fun hlast => absurd (h _ (List.mem_of_getLast? hlast)) (by decide)
    obtain ⟨c, cs, hname, hc, hcs⟩ := exists_of_isPlainKey hplain hline
    have hpart : ∀ d ∈ name.toList, (isKeyStart d || d.isDigit) = true := by
      rw [hname]
      exact List.forall_mem_cons.mpr ⟨by rw [hc, Bool.true_or], List.all_eq_true.mp hcs⟩
    rw [(flatMap_jsonChar_eq_iff h).mpr fun d hd => Nat.le_of_lt_succ (ascii_of_isKeyPart (hpart d hd)), String.ofList_toList]
  · have hverbatim : Verbatim (name.toList.flatMap Text.jsonChar) := verbatim_flatMap fun c hc => verbatim_jsonChar (h c hc)
    rw [Text.jsonString, String.toList_ofList, unquote_quoted (.inr (.inl rfl)), hverbatim.unescaped_eq]

theorem ascii_reread (h : ∀ c ∈ name.toList, isWordPart c = true) : ∀ c ∈ (reread name).toList, c.toNat ≤ 0x7E := by
  rw [reread_eq h, String.toList_ofList]
  intro d hd
  obtain ⟨c, hc, hd⟩ := List.mem_flatMap.mp hd
  rw [jsonChar_of_isWordPart (h c hc)] at hd
  split at hd
  · rename_i hascii
    rwa [List.mem_singleton.mp hd]
  · obtain ⟨n, -, hd⟩ := List.mem_flatMap.mp hd
    have hmark : ∀ mark ∈ ['\\', 'u'], mark.toNat ≤ 0x7E := List.all_iff_forall_prop.mp rfl
    have hhex : ∀ c ∈ Text.hex 4 n, c.toNat ≤ 0x7E := forall_mem_hex (by decide) 4 n
    exact List.forall_mem_append.mpr ⟨hmark, hhex⟩ d hd

/-- A name of word characters comes back as it was exactly if it is ASCII. -/
theorem reread_eq_iff (h : ∀ c ∈ name.toList, isWordPart c = true) :
    reread name = name ↔ ∀ c ∈ name.toList, c.toNat ≤ 0x7E := by
  rw [reread_eq h, ← flatMap_jsonChar_eq_iff h, ← String.toList_inj, String.toList_ofList]

end ResponseShapes
