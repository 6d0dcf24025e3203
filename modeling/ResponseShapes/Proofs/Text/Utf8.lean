import ResponseShapes.Text.Utf8

/-! # Reading UTF-8 back

The bytes of a text are those of that text (`decode_encode`). -/

namespace ResponseShapes.Text

namespace LeadByte

variable {l : LeadByte}

/-- Bytes that may stand where they stand are all counted. -/
theorem run_append {place : Nat} {bs : List UInt8} (rest : List UInt8)
    (h : ∀ i, (hi : i < bs.length) → l.continues (place + i) bs[i] = true) :
    l.run bs.length place (bs ++ rest) = bs.length := by
  induction bs generalizing place with
  | nil => rfl
  | cons b bs ih =>
    have hb : l.continues place b = true := h 0 (Nat.zero_lt_succ _)
    rw [List.length_cons, List.cons_append, run, if_pos hb, ih]
    intro i hi
    rw [Nat.add_right_comm, Nat.add_assoc]
    exact h (i + 1) (Nat.succ_lt_succ hi)

end LeadByte

/-- Decoding reads the character of a first byte and those that continue it. -/
theorem decodeFrom_lead {l : LeadByte} {fuel position : Nat} {b : UInt8} {bs rest : List UInt8}
    (hb : LeadByte.of? b.toNat = some l) (hbig : 0x80 ≤ b.toNat) (hlength : l.length = bs.length + 1)
    (h : ∀ i, (hi : i < bs.length) → l.continues (1 + i) bs[i] = true) :
    decodeFrom (fuel + 1) position (b :: (bs ++ rest)) =
      (decodeFrom fuel (position + l.length) rest).map (charOf l.bits bs :: ·) := by
  have hcount : l.run (l.length - 1) 1 (bs ++ rest) = bs.length := by
    rw [hlength, Nat.add_sub_cancel, LeadByte.run_append rest h]
  rw [decodeFrom, if_neg (Nat.not_lt.mpr hbig), hb]
  dsimp only
  rw [hcount, if_pos (by omega), List.drop_left, List.take_left]

theorem charOf_eq {c : Char} {bits : Nat} {bs : List UInt8}
    (h : bs.foldl (fun n b => 64 * n + b.toNat % 64) bits = c.val.toNat) : charOf bits bs = c := by
  rw [charOf, h]
  exact Char.ofNat_toNat c

/-! ### First bytes -/

namespace LeadByte

theorem of?_two {n : Nat} (h : 0xC2 ≤ n) (h' : n ≤ 0xDF) : of? n = some ⟨2, n - 0xC0, 0x80, 0xBF⟩ := by
  rw [of?, if_pos (by simp; omega)]

/-- The first byte of three gives its bits, and limits the second byte at the ends of the range. -/
theorem of?_three {n : Nat} (h : 0xE0 ≤ n) (h' : n ≤ 0xEF) : ∃ l, of? n = some l ∧ l.length = 3 ∧
    l.bits = n - 0xE0 ∧ l.least = (if n = 0xE0 then 0xA0 else 0x80) ∧
    l.greatest = if n = 0xED then 0x9F else 0xBF := by
  rw [of?, if_neg (by simp; omega)]
  by_cases hE0 : n = 0xE0
  · exact ⟨_, if_pos hE0, rfl, by rw [hE0], by rw [if_pos hE0], by rw [hE0]; rfl⟩
  rw [if_neg hE0]
  by_cases hED : n = 0xED
  · exact ⟨_, if_pos hED, rfl, by rw [hED], by rw [hED]; rfl, by rw [if_pos hED]⟩
  rw [if_neg hED, if_pos (by simp; omega)]
  exact ⟨_, rfl, rfl, rfl, by rw [if_neg hE0], by rw [if_neg hED]⟩

/-- The first byte of four gives its bits, and limits the second byte at the ends of the range. -/
theorem of?_four {n : Nat} (h : 0xF0 ≤ n) (h' : n ≤ 0xF4) : ∃ l, of? n = some l ∧ l.length = 4 ∧
    l.bits = n - 0xF0 ∧ l.least = (if n = 0xF0 then 0x90 else 0x80) ∧
    l.greatest = if n = 0xF4 then 0x8F else 0xBF := by
  rw [of?, if_neg (by simp; omega), if_neg (by omega), if_neg (by omega), if_neg (by simp; omega)]
  by_cases hF0 : n = 0xF0
  · exact ⟨_, if_pos hF0, rfl, by rw [hF0], by rw [if_pos hF0], by rw [hF0]; rfl⟩
  rw [if_neg hF0]
  by_cases hF4 : n = 0xF4
  · exact ⟨_, if_pos hF4, rfl, by rw [hF4], by rw [hF4]; rfl, by rw [if_pos hF4]⟩
  rw [if_neg hF4, if_pos (by simp; omega)]
  exact ⟨_, rfl, rfl, rfl, by rw [if_neg hF0], by rw [if_neg hF4]⟩

end LeadByte

/-! ### Characters -/

/-- Decoding reads back the bytes of a character. -/
theorem decodeFrom_encodeChar (c : Char) (fuel position : Nat) (rest : List UInt8) :
    decodeFrom (fuel + 1) position (String.utf8EncodeChar c ++ rest) =
      (decodeFrom fuel (position + (String.utf8EncodeChar c).length) rest).map (c :: ·) := by
  have hvalid : c.val.toNat < 0xD800 ∨ 0xDFFF < c.val.toNat ∧ c.val.toNat < 0x110000 := c.valid
  have hbyte : ∀ n, n < 256 → (UInt8.ofNat n).toNat = n := fun n hn => UInt8.toNat_ofNat_of_lt hn
  rw [String.utf8EncodeChar]
  generalize hv : c.val.toNat = v at hvalid
  split
  · have hc : Char.ofNat v = c := hv ▸ Char.ofNat_toNat c
    rw [List.singleton_append, decodeFrom, hbyte v (by omega), if_pos (by omega), hc]
    rfl
  split
  · have hlead := hbyte (v / 64 % 32 + 192) (by omega)
    have hnext := hbyte (v % 64 + 128) (by omega)
    have hof := LeadByte.of?_two (n := v / 64 % 32 + 192) (by omega) (by omega)
    rw [List.cons_append, decodeFrom_lead (hlead.symm ▸ hof) (by omega) rfl]
    · rw [charOf_eq (c := c)]
      · rfl
      · simp only [List.foldl_cons, List.foldl_nil, hnext]
        omega
    · intro i hi
      obtain rfl : i = 0 := by simpa using hi
      simp [LeadByte.continues]
      omega
  split
  · have hlead := hbyte (v / 4096 % 16 + 224) (by omega)
    have hsecond := hbyte (v / 64 % 64 + 128) (by omega)
    have hthird := hbyte (v % 64 + 128) (by omega)
    obtain ⟨l, hof, hlength, hbits, hleast, hgreatest⟩ :=
      LeadByte.of?_three (n := v / 4096 % 16 + 224) (by omega) (by omega)
    rw [List.cons_append, decodeFrom_lead (hlead.symm ▸ hof) (by omega) hlength, hlength]
    · rw [charOf_eq (c := c)]
      · rfl
      · simp only [List.foldl_cons, List.foldl_nil, hsecond, hthird, hbits]
        omega
    · intro i hi
      have hi' : i = 0 ∨ i = 1 := by simp at hi; omega
      rcases hi' with rfl | rfl
      · rw [LeadByte.continues, if_pos rfl, Bool.and_eq_true, decide_eq_true_eq, decide_eq_true_eq, hleast, hgreatest,
          List.getElem_cons_zero, hsecond]
        constructor <;> split <;> omega
      · simp [LeadByte.continues]
        omega
  · have hlead := hbyte (v / 262144 % 8 + 240) (by omega)
    have hsecond := hbyte (v / 4096 % 64 + 128) (by omega)
    have hthird := hbyte (v / 64 % 64 + 128) (by omega)
    have hfourth := hbyte (v % 64 + 128) (by omega)
    obtain ⟨l, hof, hlength, hbits, hleast, hgreatest⟩ :=
      LeadByte.of?_four (n := v / 262144 % 8 + 240) (by omega) (by omega)
    rw [List.cons_append, decodeFrom_lead (hlead.symm ▸ hof) (by omega) hlength, hlength]
    · rw [charOf_eq (c := c)]
      · rfl
      · simp only [List.foldl_cons, List.foldl_nil, hsecond, hthird, hfourth, hbits]
        omega
    · intro i hi
      have hi' : i = 0 ∨ i = 1 ∨ i = 2 := by simp at hi; omega
      rcases hi' with rfl | rfl | rfl
      · rw [LeadByte.continues, if_pos rfl, Bool.and_eq_true, decide_eq_true_eq, decide_eq_true_eq, hleast, hgreatest,
          List.getElem_cons_zero, hsecond]
        constructor <;> split <;> omega
      · simp [LeadByte.continues]
        omega
      · simp [LeadByte.continues]
        omega

theorem decodeFrom_encode (cs : List Char) : ∀ {fuel : Nat} (position : Nat), cs.length ≤ fuel →
    decodeFrom fuel position (encode cs) = .ok cs := by
  induction cs with
  | nil =>
    intro fuel position _
    cases fuel <;> rfl
  | cons c cs ih =>
    intro fuel position hfuel
    obtain ⟨fuel, rfl⟩ := Nat.exists_eq_add_of_le' (Nat.lt_of_lt_of_le (Nat.zero_lt_succ _) hfuel)
    rw [encode, List.flatMap_cons, decodeFrom_encodeChar]
    have hrest := ih (position + (String.utf8EncodeChar c).length) (Nat.le_of_succ_le_succ hfuel)
    rw [encode] at hrest
    rw [hrest]
    rfl

theorem length_le_encode (cs : List Char) : cs.length ≤ (encode cs).length := by
  induction cs with
  | nil => exact Nat.le_refl _
  | cons c cs ih =>
    have hpos : 0 < (String.utf8EncodeChar c).length := List.length_pos_iff.mpr String.utf8EncodeChar_ne_nil
    rw [encode, List.flatMap_cons, List.length_append, List.length_cons]
    rw [encode] at ih
    omega

/-- The bytes of a text are read back as that text. -/
theorem decode_encode (cs : List Char) : decode (encode cs) = .ok cs :=
  decodeFrom_encode cs 0 (length_le_encode cs)

end ResponseShapes.Text
