import ResponseShapes.Proofs.Text.Literal

/-! # What JSON strings denote

A JSON string is a literal that denotes the text it was made for (`denotes_jsonString`): its escapes are those of
literals, and a character beyond four digits is written by its two units. No two texts have the same units, and so no
two texts have the same literal. -/

namespace ResponseShapes.Text

open Literal

variable {c d : Char} {cs rest rest' : List Char} {us : List Nat} {n : Nat}

/-! ### Units -/

/-- The units of a character tell it, whatever comes behind them. -/
theorem units_append_inj {vs vs' : List Nat} (h : units c ++ vs = units d ++ vs') : c = d ∧ vs = vs' := by
  have hc : c.toNat < 0xD800 ∨ 0xDFFF < c.toNat ∧ c.toNat < 0x110000 := c.valid
  have hd : d.toNat < 0xD800 ∨ 0xDFFF < d.toNat ∧ d.toNat < 0x110000 := d.valid
  have hsame : c.toNat = d.toNat → c = d := fun heq => by rw [← Char.ofNat_toNat c, heq, Char.ofNat_toNat]
  unfold units at h
  -- No character has the number of the first of two units.
  split at h <;> split at h <;> simp only [List.cons_append, List.nil_append, List.cons.injEq] at h
  · exact ⟨hsame h.1, h.2⟩
  · omega
  · omega
  · exact ⟨hsame (by omega), h.2.2⟩

theorem flatMap_units_injective : Function.Injective fun cs : List Char => cs.flatMap units := by
  have hne (c : Char) : units c ≠ [] := by
    unfold units
    split <;> exact List.cons_ne_nil _ _
  intro cs
  induction cs with
  | nil =>
    rintro (_ | ⟨d, ds⟩) h
    · rfl
    · exact absurd (List.append_eq_nil_iff.mp h.symm).1 (hne d)
  | cons c cs ih =>
    rintro (_ | ⟨d, ds⟩) h
    · exact absurd (List.append_eq_nil_iff.mp h).1 (hne c)
    · obtain ⟨rfl, htail⟩ := units_append_inj h
      rw [ih htail]

theorem lt_of_mem_units (h : n ∈ units c) : n < 0x10000 := by
  have hc : c.toNat < 0xD800 ∨ 0xDFFF < c.toNat ∧ c.toNat < 0x110000 := c.valid
  unfold units at h
  split at h
  · rename_i hlow
    exact List.mem_singleton.mp h ▸ hlow
  · simp only [List.mem_cons, List.not_mem_nil, or_false] at h
    omega

/-! ### Escapes -/

theorem hexValue?_hexDigit : n < 16 → hexValue? (hexDigit n) = some n := by
  have hdigits : ∀ m < 16, hexValue? (hexDigit m) = some m := by decide
  exact hdigits n

theorem hexNumber?_hex (h : n < 0x10000) : hexNumber? (hex 4 n) = some n := by
  have hdigit (m : Nat) : hexValue? (hexDigit (m % 16)) = some (m % 16) :=
    hexValue?_hexDigit (Nat.mod_lt _ (by decide))
  simp only [hexNumber?, hex, List.nil_append, List.cons_append, List.mapM_cons, List.mapM_nil, hdigit, Option.pure_def,
    Option.bind_eq_bind, Option.bind_some, Option.map_some, List.foldl_cons, List.foldl_nil, Option.some.injEq]
  omega

theorem escape?_hex (h : n < 0x10000) (rest : List Char) : escape? ('u' :: hex 4 n ++ rest) = some ([n], rest) := by
  have hfirst : ∀ m < 16, hexDigit m ≠ '\x7b' := by decide
  have hnumber := hexNumber?_hex h
  simp only [hex, List.nil_append, List.cons_append] at hnumber ⊢
  rw [escape?, hnumber]
  · rfl
  · exact hfirst _ (Nat.mod_lt _ (by decide))

theorem content_numbers {vs : List Nat} (hvs : ∀ n ∈ vs, n < 0x10000) (h : Content .double rest us) :
    Content .double ((vs.flatMap fun n => '\\' :: 'u' :: hex 4 n) ++ rest) (vs ++ us) := by
  induction vs with
  | nil => exact h
  | cons n vs ih =>
    obtain ⟨hn, hvs⟩ := List.forall_mem_cons.mp hvs
    rw [List.flatMap_cons, List.append_assoc]
    change Content .double ('\\' :: ('u' :: hex 4 n ++ _)) ([n] ++ (vs ++ us))
    exact .escape (escape?_hex hn _) (ih hvs)

/-! ### Literals -/

/-- What is written for a character denotes its units. -/
theorem content_jsonChar (c : Char) (h : Content .double rest us) :
    Content .double (jsonChar c ++ rest) (units c ++ us) := by
  have hcontrol {letter : Char} (hspelled : escape? (letter :: rest) = some (units c, rest)) :
      Content .double (['\\', letter] ++ rest) (units c ++ us) := .escape hspelled h
  have hof {m : Nat} (hm : c.toNat = m) : c = Char.ofNat m := by rw [← hm, Char.ofNat_toNat]
  unfold jsonChar
  split
  · rename_i hquote
    rw [Bool.or_eq_true, decide_eq_true_eq, decide_eq_true_eq] at hquote
    obtain rfl | rfl := hquote <;> exact hcontrol rfl
  rename_i hquote
  split
  · subst c
    exact hcontrol rfl
  rename_i hline
  split
  · subst c
    exact hcontrol rfl
  rename_i hreturn
  split
  · subst c
    exact hcontrol rfl
  split
  · obtain rfl := hof ‹_›
    exact hcontrol rfl
  split
  · obtain rfl := hof ‹_›
    exact hcontrol rfl
  split
  · rw [Bool.or_eq_true, decide_eq_true_eq, decide_eq_true_eq, not_or] at hquote
    exact .char ⟨hquote.1, hquote.2, hreturn, fun _ => hline, fun htemplate => Form.noConfusion htemplate⟩ h
  · exact content_numbers (fun n hn => lt_of_mem_units hn) h

theorem content_jsonChars (cs : List Char) : Content .double (cs.flatMap jsonChar) (cs.flatMap units) := by
  induction cs with
  | nil => exact .nil
  | cons c cs ih =>
    rw [List.flatMap_cons, List.flatMap_cons]
    exact content_jsonChar c ih

/-- A JSON string denotes the text it was made for. -/
theorem denotes_jsonString (s : String) : Denotes .double (jsonString s).toList (s.toList.flatMap units) := by
  rw [jsonString, String.toList_ofList]
  exact ⟨_, rfl, content_jsonChars s.toList⟩

theorem jsonString_injective : Function.Injective jsonString := by
  intro s t h
  have hunits := (h ▸ denotes_jsonString s).unique (denotes_jsonString t)
  exact String.toList_inj.mp (flatMap_units_injective hunits)

end ResponseShapes.Text
