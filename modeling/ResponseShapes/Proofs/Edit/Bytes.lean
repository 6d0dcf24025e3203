import Mathlib.Data.List.Basic
import ResponseShapes.Proofs.Edit.Apart
import ResponseShapes.Text.Utf8

/-! # Edits of a text and of its bytes

A source is edited by characters, and stored as bytes. The edits whose positions count bytes make of the bytes of a
text the bytes of what the edits by characters make of the text, so their result is again the bytes of a text
(`apply_inBytes`). -/

namespace ResponseShapes

namespace Text

theorem encode_append (xs ys : List Char) : encode (xs ++ ys) = encode xs ++ encode ys := by
  unfold encode
  exact List.flatMap_append

/-- The number of bytes before the character at `p`. -/
def byteOffset (xs : List Char) (p : Nat) : Nat :=
  (encode (xs.take p)).length

theorem byteOffset_length (xs : List Char) : byteOffset xs xs.length = (encode xs).length := by
  unfold byteOffset
  rw [List.take_length]

theorem take_byteOffset (xs : List Char) (p : Nat) : (encode xs).take (byteOffset xs p) = encode (xs.take p) := by
  unfold byteOffset
  conv_lhs => rw [← List.take_append_drop p xs, encode_append]
  exact List.take_left' (by rw [List.take_append_drop])

theorem drop_byteOffset (xs : List Char) (p : Nat) : (encode xs).drop (byteOffset xs p) = encode (xs.drop p) := by
  unfold byteOffset
  conv_lhs => rw [← List.take_append_drop p xs, encode_append]
  exact List.drop_left' (by rw [List.take_append_drop])

theorem encode_length_pos {xs : List Char} (h : xs ≠ []) : 0 < (encode xs).length := by
  cases xs with
  | nil => exact absurd rfl h
  | cons c cs =>
    unfold encode
    rw [List.flatMap_cons, List.length_append, String.length_utf8EncodeChar]
    have := c.utf8Size_pos
    omega

theorem byteOffset_lt {xs : List Char} {p q : Nat} (hpq : p < q) (hq : q ≤ xs.length) :
    byteOffset xs p < byteOffset xs q := by
  have hsplit : xs.take q = xs.take p ++ (xs.take q).drop p := by
    have hp : xs.take p = (xs.take q).take p := by rw [List.take_take, Nat.min_eq_left (Nat.le_of_lt hpq)]
    rw [hp, List.take_append_drop]
  have hne : (xs.take q).drop p ≠ [] := by
    apply List.ne_nil_of_length_pos
    rw [List.length_drop, List.length_take]
    omega
  have hpos := encode_length_pos hne
  unfold byteOffset
  rw [hsplit, encode_append, List.length_append]
  omega

theorem byteOffset_le {xs : List Char} {p q : Nat} (hpq : p ≤ q) (hq : q ≤ xs.length) :
    byteOffset xs p ≤ byteOffset xs q := by
  rcases Nat.lt_or_eq_of_le hpq with h | rfl
  · exact Nat.le_of_lt (byteOffset_lt h hq)
  · exact Nat.le_refl _

theorem byteOffset_inj {xs : List Char} {p q : Nat} (hp : p ≤ xs.length) (hq : q ≤ xs.length)
    (h : byteOffset xs p = byteOffset xs q) : p = q := by
  rcases Nat.lt_trichotomy p q with hlt | heq | hlt
  · have := byteOffset_lt hlt hq
    omega
  · exact heq
  · have := byteOffset_lt hlt hp
    omega

end Text

namespace Edit

open Text

/-- The edit with its positions counted in the bytes of the text `xs`. -/
def inBytes (xs : List Char) (e : Edit Char) : Edit UInt8 :=
  { start := byteOffset xs e.start, stop := byteOffset xs e.stop, replacement := encode e.replacement }

theorem Fits.inBytes {xs : List Char} {e : Edit Char} (h : Fits xs.length e) :
    Fits (encode xs).length (inBytes xs e) := by
  obtain ⟨h₁, h₂⟩ := h
  rw [← byteOffset_length]
  exact ⟨byteOffset_le h₁ h₂, byteOffset_le h₂ (Nat.le_refl _)⟩

theorem Apart.inBytes {xs : List Char} {a b : Edit Char} (ha : Fits xs.length a) (hb : Fits xs.length b)
    (h : Apart a b) : Apart (inBytes xs a) (inBytes xs b) := by
  obtain ⟨hover, hsame⟩ := h
  have ha₁ := Nat.le_trans ha.1 ha.2
  have hb₁ := Nat.le_trans hb.1 hb.2
  refine ⟨hover.imp (fun h => byteOffset_le h hb₁) fun h => byteOffset_le h ha₁, fun heq => hsame ?_⟩
  obtain ⟨hstart, hstop⟩ := Prod.mk.inj heq
  rw [byteOffset_inj ha₁ hb₁ hstart, byteOffset_inj ha.2 hb.2 hstop]

theorem notBefore_inBytes {xs : List Char} {a b : Edit Char} (ha : Fits xs.length a) (hb : Fits xs.length b) :
    notBefore a b = notBefore (inBytes xs a) (inBytes xs b) := by
  have hlt : ∀ {p q : Nat}, p ≤ xs.length → q ≤ xs.length → (byteOffset xs p < byteOffset xs q ↔ p < q) := by
    intro p q hp hq
    constructor
    · intro h
      by_contra hn
      have hle : byteOffset xs q ≤ byteOffset xs p := byteOffset_le (Nat.le_of_not_lt hn) hp
      omega
    · exact fun h => byteOffset_lt h hq
  obtain ⟨ha₁, ha₂⟩ := ha
  obtain ⟨hb₁, hb₂⟩ := hb
  have h₁ := hlt (Nat.le_trans hb₁ hb₂) (Nat.le_trans ha₁ ha₂)
  have h₂ := hlt (Nat.le_trans ha₁ ha₂) (Nat.le_trans hb₁ hb₂)
  have h₃ := hlt ha₂ hb₂
  rw [Bool.eq_iff_iff, notBefore_iff, notBefore_iff]
  simp only [inBytes]
  omega

theorem inOrder_inBytes {xs : List Char} {es : List (Edit Char)} (hfit : ∀ e ∈ es, Fits xs.length e) :
    inOrder (es.map (inBytes xs)) = (inOrder es).map (inBytes xs) := by
  have hsame : ∀ a ∈ es, ∀ b ∈ es, notBefore a b = notBefore (inBytes xs a) (inBytes xs b) :=
    fun a ha b hb => notBefore_inBytes (hfit a ha) (hfit b hb)
  unfold inOrder
  exact (List.map_mergeSort hsame).symm

theorem Descends.inBytes {xs : List Char} {es : List (Edit Char)} {stop : Nat} (h : Descends stop es)
    (hstop : stop ≤ xs.length) : Descends (byteOffset xs stop) (es.map (inBytes xs)) := by
  induction es generalizing stop with
  | nil => trivial
  | cons e es ih =>
    obtain ⟨hle, hn, hes⟩ := h
    exact ⟨byteOffset_le hle (by omega), byteOffset_le hn hstop, ih hes (by omega)⟩

theorem woven_inBytes {xs : List Char} {es : List (Edit Char)} {stop : Nat} (h : Descends stop es)
    (hstop : stop ≤ xs.length) :
    woven (encode xs) (byteOffset xs stop) (es.map (inBytes xs)) = encode (woven xs stop es) := by
  induction es generalizing stop with
  | nil =>
    simp only [List.map_nil, woven]
    exact take_byteOffset xs stop
  | cons e es ih =>
    obtain ⟨hle, hn, hes⟩ := h
    have hgap : ((encode xs).take (byteOffset xs stop)).drop (byteOffset xs e.stop) =
        encode ((xs.take stop).drop e.stop) := by
      have hsame : byteOffset xs e.stop = byteOffset (xs.take stop) e.stop := by
        unfold byteOffset
        rw [List.take_take, Nat.min_eq_left hn]
      rw [take_byteOffset, hsame, drop_byteOffset]
    simp only [List.map_cons, woven, Edit.inBytes, encode_append]
    rw [hgap]
    congr 2
    exact ih hes (by omega)

/-- What edits make of a text, the same edits counted in bytes make of its bytes. -/
theorem apply_inBytes {xs ys : List Char} {es : List (Edit Char)} (hfit : ∀ e ∈ es, Fits xs.length e)
    (hapart : es.Pairwise Apart) (hys : apply xs es = .ok ys) :
    apply (encode xs) (es.map (inBytes xs)) = .ok (encode ys) := by
  have hdesc := inOrder_descends hfit hapart
  have hout : ys = woven xs xs.length (inOrder es) := by
    have := (apply_eq_woven hfit hapart).symm.trans hys
    exact (Except.ok.inj this).symm
  have hbytes : Descends (encode xs).length ((inOrder es).map (Edit.inBytes xs)) := by
    rw [← byteOffset_length]
    exact hdesc.inBytes (Nat.le_refl _)
  unfold apply
  rw [inOrder_inBytes hfit, applyFrom_eq_woven hbytes (Nat.le_succ _) rfl (Nat.le_refl _), List.drop_length,
    List.append_nil, hout, ← woven_inBytes hdesc (Nat.le_refl _), byteOffset_length]

end Edit

end ResponseShapes
