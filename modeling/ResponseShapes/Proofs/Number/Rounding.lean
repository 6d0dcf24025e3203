import Mathlib.Algebra.Order.Field.Power
import Mathlib.Data.Nat.Log
import Mathlib.Data.Rat.Lemmas
import Mathlib.Order.WithBot
import Mathlib.Tactic.FieldSimp
import Mathlib.Tactic.Linarith
import Mathlib.Tactic.NormNum
import Mathlib.Tactic.Positivity
import Mathlib.Tactic.Ring
import ResponseShapes.Number.Binary64

/-! # The order of rounded numbers

Rounding keeps the order (`rounded_mono`): of two quotients the smaller one is not rounded to a greater number. A sum is
the rounded sum of the values, so it grows with each of its terms (`AtMost.add`). A whole number keeps its sign
(`isAtMostZero_ofInt?`). -/

namespace ResponseShapes

namespace Binary64

variable {num den num' den' : Nat} {x y z : Binary64}

/-! ### Nearest whole numbers -/

theorem nearestQuotient_mono (hden : 0 < den) (hden' : 0 < den') (h : num * den' ≤ num' * den) :
    nearestQuotient num den ≤ nearestQuotient num' den' := by
  have hquot : num / den ≤ num' / den' := by
    rw [Nat.le_div_iff_mul_le hden']
    refine Nat.le_of_mul_le_mul_right ?_ hden
    calc num / den * den' * den = num / den * den * den' := Nat.mul_right_comm _ _ _
      _ ≤ num * den' := Nat.mul_le_mul_right _ (Nat.div_mul_le_self num den)
      _ ≤ num' * den := h
  have hbelow : nearestQuotient num den ≤ num / den + 1 := by
    unfold nearestQuotient
    dsimp only
    split <;> omega
  have habove : num' / den' ≤ nearestQuotient num' den' := by
    unfold nearestQuotient
    dsimp only
    split <;> omega
  rcases Nat.lt_or_eq_of_le hquot with hlt | heq
  · omega
  -- Both lie between the same whole numbers, so what is left over decides.
  have hrest : num % den * den' ≤ num' % den' * den := by
    have h₁ := Nat.div_add_mod num den
    have h₂ := Nat.div_add_mod num' den'
    rw [heq] at h₁
    generalize num' / den' = q at h₁ h₂
    rw [← h₁, ← h₂, Nat.add_mul, Nat.add_mul] at h
    have hsame : den * q * den' = den' * q * den := by rw [Nat.mul_right_comm, Nat.mul_comm den, Nat.mul_right_comm]
    omega
  unfold nearestQuotient
  dsimp only
  rw [heq]
  by_cases hup : (2 * (num' % den') < den' || (2 * (num' % den') = den' && num' / den' % 2 = 0)) = true
  · rw [if_pos hup]
    rw [Bool.or_eq_true, Bool.and_eq_true, decide_eq_true_iff, decide_eq_true_iff, decide_eq_true_iff] at hup
    rw [if_pos]
    rw [Bool.or_eq_true, Bool.and_eq_true, decide_eq_true_iff, decide_eq_true_iff, decide_eq_true_iff]
    have hscale : 2 * (num % den) * den' ≤ 2 * (num' % den') * den := by
      rw [Nat.mul_assoc, Nat.mul_assoc]
      exact Nat.mul_le_mul_left 2 hrest
    rcases hup with hlt | ⟨heq', heven⟩
    · refine .inl (Nat.lt_of_mul_lt_mul_right (a := den') (hscale.trans_lt ?_))
      rw [Nat.mul_comm den]
      exact Nat.mul_lt_mul_of_pos_right hlt hden
    · rw [heq', Nat.mul_comm den' den] at hscale
      have hle := Nat.le_of_mul_le_mul_right hscale hden'
      rcases Nat.lt_or_eq_of_le hle with hlt | hhalf
      · exact .inl hlt
      · exact .inr ⟨hhalf, heven⟩
  · rw [if_neg hup]
    split <;> omega

theorem nearestQuotient_one (n : Nat) : nearestQuotient n 1 = n := by
  simp [nearestQuotient, Nat.mod_one]

/-! ### Powers of two -/

theorem powerOfTwo_spec (e : Int) : 0 < (powerOfTwo e).1 ∧ 0 < (powerOfTwo e).2 ∧
    ((powerOfTwo e).1 : ℚ) / (powerOfTwo e).2 = 2 ^ e := by
  unfold powerOfTwo
  split
  · rename_i h
    refine ⟨Nat.one_pos, Nat.two_pow_pos _, ?_⟩
    obtain ⟨n, rfl⟩ : ∃ n : Nat, e = -(n : Int) := ⟨(-e).toNat, by omega⟩
    simp [zpow_neg]
  · obtain ⟨n, rfl⟩ : ∃ n : Nat, e = (n : Int) := ⟨e.toNat, by omega⟩
    refine ⟨Nat.two_pow_pos _, Nat.one_pos, ?_⟩
    simp

/-- A quotient compared with a power of two. -/
theorem powerOfTwo_le_iff (hden : 0 < den) (e : Int) :
    (powerOfTwo e).1 * den ≤ num * (powerOfTwo e).2 ↔ (2 : ℚ) ^ e ≤ num / den := by
  obtain ⟨hp, hq, heq⟩ := powerOfTwo_spec e
  have hden' : (0 : ℚ) < den := by exact_mod_cast hden
  have hq' : (0 : ℚ) < (powerOfTwo e).2 := by exact_mod_cast hq
  rw [← heq, div_le_div_iff₀ hq' hden']
  exact_mod_cast Iff.rfl

theorem quotient_bounds (hnum : 0 < num) (hden : 0 < den) :
    (2 : ℚ) ^ ((num.log2 : Int) - den.log2 - 1) < num / den ∧ (num : ℚ) / den < 2 ^ ((num.log2 : Int) - den.log2 + 1) := by
  have hden' : (0 : ℚ) < den := by exact_mod_cast hden
  have h₁ : (2 : ℚ) ^ (num.log2 : Int) ≤ num := by exact_mod_cast Nat.log2_self_le (Nat.pos_iff_ne_zero.mp hnum)
  have h₂ : (num : ℚ) < 2 ^ ((num.log2 : Int) + 1) := by
    exact_mod_cast Nat.lt_log2_self (n := num)
  have h₃ : (2 : ℚ) ^ (den.log2 : Int) ≤ den := by exact_mod_cast Nat.log2_self_le (Nat.pos_iff_ne_zero.mp hden)
  have h₄ : (den : ℚ) < 2 ^ ((den.log2 : Int) + 1) := by
    exact_mod_cast Nat.lt_log2_self (n := den)
  constructor
  · rw [lt_div_iff₀ hden']
    calc (2 : ℚ) ^ ((num.log2 : Int) - den.log2 - 1) * den
        < 2 ^ ((num.log2 : Int) - den.log2 - 1) * 2 ^ ((den.log2 : Int) + 1) := by gcongr
      _ = 2 ^ (num.log2 : Int) := by rw [← zpow_add₀ two_ne_zero]; congr 1; omega
      _ ≤ num := h₁
  · rw [div_lt_iff₀ hden']
    calc (num : ℚ) < 2 ^ ((num.log2 : Int) + 1) := h₂
      _ = 2 ^ ((num.log2 : Int) - den.log2 + 1) * 2 ^ (den.log2 : Int) := by
        rw [← zpow_add₀ two_ne_zero]; congr 1; omega
      _ ≤ 2 ^ ((num.log2 : Int) - den.log2 + 1) * den := by gcongr

/-- A positive quotient has at most 53 digits with its exponent, and exactly as many unless the exponent is the least
    one. -/
theorem exponentOf_spec (hnum : 0 < num) (hden : 0 < den) :
    (num : ℚ) / den < 2 ^ (exponentOf num den + 53) ∧
      (exponentOf num den = leastExponent ∨ (2 : ℚ) ^ (exponentOf num den + 52) ≤ num / den) ∧
      leastExponent ≤ exponentOf num den := by
  obtain ⟨hlow, hhigh⟩ := quotient_bounds hnum hden
  unfold exponentOf
  dsimp only
  generalize hlog : (num.log2 : Int) - den.log2 = log at hlow hhigh ⊢
  obtain ⟨e, he, hbelow, habove⟩ : ∃ e : Int,
      (if (powerOfTwo log).1 * den ≤ num * (powerOfTwo log).2 then log else log - 1) = e ∧
        (num : ℚ) / den < 2 ^ (e + 1) ∧ (2 : ℚ) ^ e ≤ num / den := by
    refine ⟨_, rfl, ?_⟩
    split
    · rename_i h
      exact ⟨hhigh, (powerOfTwo_le_iff hden log).mp h⟩
    · rename_i h
      rw [powerOfTwo_le_iff hden, not_le] at h
      refine ⟨?_, hlow.le⟩
      rwa [Int.sub_add_cancel]
  rw [he]
  rcases le_total leastExponent (e - 52) with hle | hle
  · rw [max_eq_right hle]
    refine ⟨?_, .inr ?_, hle⟩
    · rwa [show e - 52 + 53 = e + 1 by omega]
    · rwa [show e - 52 + 52 = e by omega]
  · rw [max_eq_left hle]
    refine ⟨hbelow.trans_le ?_, .inl rfl, le_refl _⟩
    exact zpow_le_zpow_right₀ one_le_two (by omega)

/-! ### Rounding -/

/-- The value that a quotient is rounded to; there is none beyond all finite numbers. -/
def rounded (num den : Nat) : WithTop ℚ :=
  match ofQuotient false num den with
  | finite _ m e => ((m * 2 ^ e : ℚ) : WithTop ℚ)
  | _ => ⊤

/-- What a positive quotient is rounded to: the nearest multiple of a power of two. -/
theorem ofQuotient_cases (negative : Bool) (hnum : 0 < num) {k : Nat}
    (hk : k = nearestQuotient (num * (powerOfTwo (exponentOf num den)).2) (den * (powerOfTwo (exponentOf num den)).1)) :
    (greatestExponent < exponentOf num den + (if k = 2 ^ 53 then 1 else 0) ∧
      ofQuotient negative num den = infinite negative) ∨
    (exponentOf num den + (if k = 2 ^ 53 then 1 else 0) ≤ greatestExponent ∧
      ∃ m e, ofQuotient negative num den = finite negative m e ∧ (m * 2 ^ e : ℚ) = k * 2 ^ exponentOf num den) := by
  unfold ofQuotient
  rw [if_neg (Nat.pos_iff_ne_zero.mp hnum)]
  dsimp only
  rw [← hk]
  by_cases hcarry : k = 2 ^ 53
  · have hcarry' : k = Nat.pow 2 53 := hcarry
    simp only [if_pos hcarry, if_pos hcarry']
    rcases lt_or_ge greatestExponent (exponentOf num den + 1) with h | h
    · exact .inl ⟨h, if_pos h⟩
    · refine .inr ⟨h, Nat.pow 2 52, _, if_neg (not_lt.mpr h), ?_⟩
      rw [hcarry, zpow_add_one₀ two_ne_zero]
      change (((2 : Nat) ^ 52 : Nat) : ℚ) * _ = _
      push_cast
      ring
  · have hcarry' : ¬k = Nat.pow 2 53 := hcarry
    simp only [if_neg hcarry, if_neg hcarry', Int.add_zero]
    rcases lt_or_ge greatestExponent (exponentOf num den) with h | h
    · exact .inl ⟨h, if_pos h⟩
    · exact .inr ⟨h, _, _, if_neg (not_lt.mpr h), rfl⟩

theorem rounded_zero (den : Nat) : rounded 0 den = 0 := by
  simp [rounded, ofQuotient]

theorem rounded_nonneg (num den : Nat) : 0 ≤ rounded num den := by
  unfold rounded
  split
  · refine WithTop.coe_nonneg.mpr ?_
    positivity
  · exact le_top

/-- Exponents grow with the quotient. -/
theorem exponentOf_mono (hnum : 0 < num) (hnum' : 0 < num') (hden : 0 < den) (hden' : 0 < den')
    (h : num * den' ≤ num' * den) : exponentOf num den ≤ exponentOf num' den' := by
  obtain ⟨-, hleast, -⟩ := exponentOf_spec hnum hden
  obtain ⟨hbelow, -, hleast'⟩ := exponentOf_spec hnum' hden'
  rcases hleast with hleast | hdigits
  · exact hleast.trans_le hleast'
  have hle : (num : ℚ) / den ≤ num' / den' := by
    rw [div_le_div_iff₀ (by exact_mod_cast hden) (by exact_mod_cast hden')]
    exact_mod_cast h
  have hpow := (zpow_lt_zpow_iff_right₀ one_lt_two).mp ((hdigits.trans hle).trans_lt hbelow)
  omega

/-- The whole number of a rounded quotient has 53 digits, perhaps carried to the next power of two. -/
theorem nearest_bounds (hnum : 0 < num) (hden : 0 < den) {k : Nat}
    (hk : k = nearestQuotient (num * (powerOfTwo (exponentOf num den)).2) (den * (powerOfTwo (exponentOf num den)).1)) :
    k ≤ 2 ^ 53 ∧ (exponentOf num den = leastExponent ∨ 2 ^ 52 ≤ k) := by
  obtain ⟨hbelow, hleast, -⟩ := exponentOf_spec hnum hden
  generalize exponentOf num den = e at hbelow hleast hk
  obtain ⟨hp, hq, heq⟩ := powerOfTwo_spec e
  generalize powerOfTwo e = r at hp hq heq hk
  have hden' : (0 : ℚ) < den := by exact_mod_cast hden
  have hq' : (0 : ℚ) < r.2 := by exact_mod_cast hq
  have hscaled : ∀ n : Nat, (2 : ℚ) ^ (e + n) = 2 ^ n * (r.1 / r.2) := fun n => by
    rw [heq, zpow_add₀ two_ne_zero, zpow_natCast, mul_comm]
  refine ⟨?_, hleast.imp_right fun h => ?_⟩
  · rw [hk, ← nearestQuotient_one (2 ^ 53)]
    refine nearestQuotient_mono (Nat.mul_pos hden hp) Nat.one_pos ?_
    have h : (num : ℚ) / den < 2 ^ 53 * (r.1 / r.2) := by simpa using (hscaled 53) ▸ hbelow
    rw [div_lt_iff₀ hden', mul_div_assoc', div_mul_eq_mul_div, lt_div_iff₀ hq'] at h
    have h' : num * r.2 < 2 ^ 53 * r.1 * den := by exact_mod_cast h
    rw [Nat.mul_one, Nat.mul_comm den, ← Nat.mul_assoc]
    exact h'.le
  · rw [hk, ← nearestQuotient_one (2 ^ 52)]
    refine nearestQuotient_mono Nat.one_pos (Nat.mul_pos hden hp) ?_
    have h : (2 : ℚ) ^ 52 * (r.1 / r.2) ≤ num / den := by simpa using (hscaled 52) ▸ h
    rw [mul_div_assoc', div_le_div_iff₀ hq' hden'] at h
    have h' : 2 ^ 52 * r.1 * den ≤ num * r.2 := by exact_mod_cast h
    rw [Nat.mul_one, Nat.mul_comm den, ← Nat.mul_assoc]
    exact h'

/-- Rounding keeps the order. -/
theorem rounded_mono (hden : 0 < den) (hden' : 0 < den') (h : num * den' ≤ num' * den) :
    rounded num den ≤ rounded num' den' := by
  rcases Nat.eq_zero_or_pos num with rfl | hnum
  · rw [rounded_zero]
    exact rounded_nonneg _ _
  have hnum' : 0 < num' := by
    refine Nat.pos_of_ne_zero ?_
    rintro rfl
    rw [Nat.zero_mul, Nat.le_zero, Nat.mul_eq_zero] at h
    omega
  generalize hk : nearestQuotient (num * (powerOfTwo (exponentOf num den)).2)
    (den * (powerOfTwo (exponentOf num den)).1) = k
  generalize hk' : nearestQuotient (num' * (powerOfTwo (exponentOf num' den')).2)
    (den' * (powerOfTwo (exponentOf num' den')).1) = k'
  obtain ⟨hfits, -⟩ := nearest_bounds hnum hden hk.symm
  obtain ⟨hfits', hdigits'⟩ := nearest_bounds hnum' hden' hk'.symm
  have hexponent := exponentOf_mono hnum hnum' hden hden' h
  -- Either the exponents are the same, and the nearest whole numbers keep the order, or the powers of two do.
  have horder : (k : ℚ) * 2 ^ exponentOf num den ≤ k' * 2 ^ exponentOf num' den' ∧
      exponentOf num den + (if k = 2 ^ 53 then 1 else 0) ≤ exponentOf num' den' + (if k' = 2 ^ 53 then 1 else 0) := by
    rcases hexponent.eq_or_lt with heq | hlt
    · have hle : k ≤ k' := by
        rw [← hk, ← hk', heq]
        obtain ⟨hp, hq, -⟩ := powerOfTwo_spec (exponentOf num' den')
        generalize powerOfTwo (exponentOf num' den') = r at hp hq
        refine nearestQuotient_mono (Nat.mul_pos hden hp) (Nat.mul_pos hden' hp) ?_
        calc num * r.2 * (den' * r.1) = num * den' * (r.2 * r.1) := by ring
          _ ≤ num' * den * (r.2 * r.1) := Nat.mul_le_mul_right _ h
          _ = num' * r.2 * (den * r.1) := by ring
      rw [heq]
      refine ⟨by gcongr, ?_⟩
      split
      · rw [if_pos (by omega)]
      · split <;> omega
    · have hdigits := hdigits'.resolve_left (by
        have := (exponentOf_spec hnum hden).2.2
        omega)
      refine ⟨?_, by split <;> split <;> omega⟩
      calc (k : ℚ) * 2 ^ exponentOf num den ≤ 2 ^ 53 * 2 ^ exponentOf num den := by
            gcongr
            exact_mod_cast hfits
        _ = 2 ^ 52 * 2 ^ (exponentOf num den + 1) := by rw [zpow_add_one₀ two_ne_zero]; ring
        _ ≤ 2 ^ 52 * 2 ^ exponentOf num' den' := by
            gcongr
            · exact one_le_two
            · omega
        _ ≤ k' * 2 ^ exponentOf num' den' := by
            gcongr
            exact_mod_cast hdigits
  unfold rounded
  obtain ⟨-, hround'⟩ | ⟨hbound', m', e', hround', hvalue'⟩ := ofQuotient_cases false hnum' hk'.symm
  · rw [hround']
    exact le_top
  obtain ⟨hbound, -⟩ | ⟨-, m, e, hround, hvalue⟩ := ofQuotient_cases false hnum hk.symm
  · omega
  · rw [hround, hround']
    dsimp only
    rw [hvalue, hvalue']
    exact WithTop.coe_le_coe.mpr horder.1

theorem ofQuotient_ne_nan (negative : Bool) (num den : Nat) : ofQuotient negative num den ≠ nan := by
  rcases Nat.eq_zero_or_pos num with rfl | hnum
  · simp [ofQuotient]
  · obtain ⟨-, h⟩ | ⟨-, m, e, h, -⟩ := @ofQuotient_cases num den negative hnum _ rfl <;> rw [h] <;> exact nofun

/-- A quotient that is at most a whole number that can be written is rounded to no more than that. -/
theorem ofQuotient_of_le {bound : ℚ} (hden : 0 < den) {n : Nat} (hbound : rounded n 1 = (bound : WithTop ℚ))
    (h : num ≤ n * den) : ∃ m e, ofQuotient false num den = finite false m e ∧ (m * 2 ^ e : ℚ) ≤ bound := by
  have hle : rounded num den ≤ (bound : WithTop ℚ) :=
    hbound ▸ rounded_mono hden one_pos (by rwa [Nat.mul_one])
  rcases Nat.eq_zero_or_pos num with rfl | hnum
  · refine ⟨0, leastExponent, by simp [ofQuotient], ?_⟩
    rw [rounded_zero, ← WithTop.coe_zero, WithTop.coe_le_coe] at hle
    simpa using hle
  · obtain ⟨-, hround⟩ | ⟨-, m, e, hround, -⟩ := @ofQuotient_cases num den false hnum _ rfl
    · rw [rounded, hround, top_le_iff] at hle
      cases hle
    · rw [rounded, hround] at hle
      exact ⟨m, e, hround, WithTop.coe_le_coe.mp hle⟩

/-! ### Comparing numbers -/

/-- The value of a finite number. -/
def value (negative : Bool) (significand : Nat) (exponent : Int) : ℚ :=
  if negative then -(significand * 2 ^ exponent) else significand * 2 ^ exponent

/-- The number is greater than a value. -/
def Exceeds (x : Binary64) (v : ℚ) : Prop :=
  match x with
  | finite s m e => v < value s m e
  | infinite s => s = false
  | nan => False

/-- The first number is not greater than the second one. -/
def AtMost (x y : Binary64) : Prop :=
  ∀ v, x.Exceeds v → y.Exceeds v

theorem quotient_spec (s : Bool) (m : Nat) (e : Int) :
    0 < (quotient s m e).2 ∧ ((quotient s m e).1 : ℚ) / (quotient s m e).2 = value s m e := by
  obtain ⟨-, hq, heq⟩ := powerOfTwo_spec e
  refine ⟨hq, ?_⟩
  unfold quotient value
  rw [← heq]
  cases s <;> simp [mul_div_assoc, neg_div]

theorem isLess_finite (s : Bool) (m : Nat) (e : Int) (x : Binary64) :
    (finite s m e).isLess x = true ↔ x.Exceeds (value s m e) := by
  cases x with
  | nan => simp [isLess, Exceeds]
  | infinite t => simp [isLess, Exceeds]
  | finite t n f =>
    obtain ⟨hp, hvalue⟩ := quotient_spec s m e
    obtain ⟨hq, hvalue'⟩ := quotient_spec t n f
    have hp' : (0 : ℚ) < (quotient s m e).2 := by exact_mod_cast hp
    have hq' : (0 : ℚ) < (quotient t n f).2 := by exact_mod_cast hq
    rw [Exceeds, ← hvalue, ← hvalue', div_lt_div_iff₀ hp' hq']
    change decide _ = true ↔ _
    rw [decide_eq_true_iff]
    exact_mod_cast Iff.rfl

/-- A number that is less than another one is less than whatever that is at most. -/
theorem AtMost.isLess (h : x.AtMost y) (hless : z.isLess x = true) : z.isLess y = true := by
  cases z with
  | nan => cases x <;> simp [Binary64.isLess, isBelow] at hless
  | finite s m e => exact (isLess_finite s m e y).mpr (h _ ((isLess_finite s m e x).mp hless))
  | infinite s =>
    obtain ⟨v, hv⟩ : ∃ v, x.Exceeds v := by
      cases x with
      | nan => simp [Binary64.isLess] at hless
      | infinite t => exact ⟨0, by simp_all [Binary64.isLess, Exceeds]⟩
      | finite t n f => exact ⟨value t n f - 1, sub_one_lt _⟩
    have hs : s = true := by
      cases x <;> simp_all [Binary64.isLess, isBelow]
    subst hs
    have hy := h v hv
    cases y <;> simp_all [Binary64.isLess, isBelow, Exceeds]

/-- What is not less is at least as great, if both are numbers. -/
theorem atMost_of_isLess_eq_false (hx : x ≠ nan) (hy : y ≠ nan) (h : y.isLess x = false) : x.AtMost y := by
  intro v hv
  cases y with
  | nan => exact absurd rfl hy
  | finite s m e =>
    by_contra hnot
    have hle : value s m e ≤ v := not_lt.mp hnot
    refine Bool.eq_false_iff.mp h ((isLess_finite s m e x).mpr ?_)
    cases x with
    | nan => exact absurd rfl hx
    | infinite t => exact hv
    | finite t n f => exact hle.trans_lt hv
  | infinite s =>
    cases x <;> cases s <;> simp_all [Binary64.isLess, isBelow, Exceeds]

/-! ### Sums -/

theorem exceeds_ofQuotient (negative : Bool) (num den : Nat) (v : ℚ) : (ofQuotient negative num den).Exceeds v ↔
    if negative then rounded num den < ((-v : ℚ) : WithTop ℚ) else (v : WithTop ℚ) < rounded num den := by
  rcases Nat.eq_zero_or_pos num with rfl | hnum
  · rw [rounded_zero]
    cases negative <;> simp [ofQuotient, Exceeds, value]
  unfold rounded
  obtain ⟨hover, hplain⟩ | ⟨hbound, m, e, hplain, hvalue⟩ := @ofQuotient_cases num den false hnum _ rfl <;>
    obtain ⟨hover', hsigned⟩ | ⟨hbound', m', e', hsigned, hvalue'⟩ := @ofQuotient_cases num den negative hnum _ rfl
  · rw [hplain, hsigned]
    cases negative <;> simp [Exceeds]
  · omega
  · omega
  · rw [hplain, hsigned]
    dsimp only [Exceeds]
    rw [value, hvalue', ← hvalue, WithTop.coe_lt_coe, WithTop.coe_lt_coe]
    cases negative <;> simp [lt_neg]

theorem exceeds_add_finite (s t : Bool) (m n : Nat) (e f : Int) (v : ℚ) :
    ∃ (sum : Int) (den : Nat), 0 < den ∧ (sum : ℚ) / den = value s m e + value t n f ∧
      (((finite s m e).add (finite t n f)).Exceeds v ↔
        if sum < 0 then rounded sum.natAbs den < ((-v : ℚ) : WithTop ℚ) else (v : WithTop ℚ) < rounded sum.natAbs den) := by
  obtain ⟨hp, hvalue⟩ := quotient_spec s m e
  obtain ⟨hq, hvalue'⟩ := quotient_spec t n f
  have hp' : ((quotient s m e).2 : ℚ) ≠ 0 := by exact_mod_cast hp.ne'
  have hq' : ((quotient t n f).2 : ℚ) ≠ 0 := by exact_mod_cast hq.ne'
  refine ⟨(quotient s m e).1 * (quotient t n f).2 + (quotient t n f).1 * (quotient s m e).2,
    (quotient s m e).2 * (quotient t n f).2, Nat.mul_pos hp hq, ?_, ?_⟩
  · rw [← hvalue, ← hvalue']
    push_cast
    field_simp
  · unfold add
    dsimp only
    split
    · rename_i h
      rw [h, if_neg (lt_irrefl _), Int.natAbs_zero, rounded_zero]
      simp [Exceeds, value]
    · rw [exceeds_ofQuotient]
      simp only [decide_eq_true_iff]

/-- A sum grows with its first term. -/
theorem AtMost.add (h : x.AtMost y) (z : Binary64) : (x.add z).AtMost (y.add z) := by
  intro v hv
  cases z with
  | nan => cases x <;> simp [Binary64.add, Exceeds] at hv
  | infinite t =>
    obtain ⟨u, hu⟩ : ∃ u, x.Exceeds u := by
      cases x with
      | nan => simp [Binary64.add, Exceeds] at hv
      | infinite s => exact ⟨0, by cases s <;> cases t <;> simp_all [Binary64.add, Exceeds]⟩
      | finite s m e => exact ⟨value s m e - 1, sub_one_lt _⟩
    have hy := h u hu
    cases y with
    | nan => cases hy
    | finite s' m' e' => cases x <;> cases t <;> simp_all [Binary64.add, Exceeds]
    | infinite s' =>
      obtain rfl : s' = false := hy
      cases x <;> cases t <;> simp_all [Binary64.add, Exceeds]
  | finite t n f =>
    cases x with
    | nan => simp [Binary64.add, Exceeds] at hv
    | infinite s =>
      obtain rfl : s = false := by simpa [Binary64.add, Exceeds] using hv
      -- Nothing but an infinity is at least infinite.
      cases y with
      | nan => exact absurd (h 0 rfl) id
      | infinite s' => simpa [Binary64.add, Exceeds] using h 0 rfl
      | finite s' m' e' => exact absurd (h (value s' m' e') rfl) (lt_irrefl _)
    | finite s m e =>
      cases y with
      | nan => exact absurd (h (value s m e - 1) (sub_one_lt _)) id
      | infinite s' => simpa [Binary64.add, Exceeds] using h (value s m e - 1) (sub_one_lt _)
      | finite s' m' e' =>
        have hle : value s m e ≤ value s' m' e' := by
          by_contra hlt
          exact absurd (h _ (not_le.mp hlt)) (lt_irrefl _)
        obtain ⟨sum, den, hden, hsum, hiff⟩ := exceeds_add_finite s t m n e f v
        obtain ⟨sum', den', hden', hsum', hiff'⟩ := exceeds_add_finite s' t m' n e' f v
        have hcross : sum * den' ≤ sum' * den := by
          have hquot : (sum : ℚ) / den ≤ sum' / den' := by rw [hsum, hsum']; gcongr
          rw [div_le_div_iff₀ (by exact_mod_cast hden) (by exact_mod_cast hden')] at hquot
          exact_mod_cast hquot
        rw [hiff] at hv
        rw [hiff']
        rcases lt_or_ge sum 0 with hneg | hpos <;> rcases lt_or_ge sum' 0 with hneg' | hpos'
        · rw [if_pos hneg] at hv
          rw [if_pos hneg']
          refine (rounded_mono hden' hden ?_).trans_lt hv
          zify
          rw [abs_of_neg hneg, abs_of_neg hneg']
          linarith
        · rw [if_pos hneg] at hv
          rw [if_neg (not_lt.mpr hpos')]
          refine lt_of_lt_of_le ?_ (rounded_nonneg _ _)
          have hpositive := (rounded_nonneg _ _).trans_lt hv
          rw [← WithTop.coe_zero, WithTop.coe_lt_coe] at hpositive ⊢
          linarith
        · exfalso
          have h₁ : 0 ≤ sum * den' := by positivity
          have h₂ : sum' * den < 0 := mul_neg_of_neg_of_pos hneg' (by exact_mod_cast hden)
          linarith
        · rw [if_neg (not_lt.mpr hpos)] at hv
          rw [if_neg (not_lt.mpr hpos')]
          refine hv.trans_le (rounded_mono hden hden' ?_)
          zify
          rw [abs_of_nonneg hpos, abs_of_nonneg hpos']
          exact hcross

/-! ### Products -/

theorem mul_finite (s t : Bool) (m n : Nat) (e f : Int) : (finite s m e).mul (finite t n f) =
    ofQuotient (s != t) ((quotient false m e).1 * (quotient false n f).1).natAbs
      ((quotient false m e).2 * (quotient false n f).2) := rfl

/-! ### Signs -/

theorem rounded_one : rounded 1 1 = 1 := by
  have h : ofQuotient false 1 1 = finite false (2 ^ 52) (-52) := by decide +kernel
  rw [rounded, h]
  norm_num

theorem isAtMostZero_finite_iff (s : Bool) (m : Nat) (e : Int) :
    (finite s m e).isAtMostZero = true ↔ ¬(finite s m e).Exceeds 0 := by
  have hpow : (0 : ℚ) < 2 ^ e := by positivity
  rw [isAtMostZero, Exceeds, value, Bool.or_eq_true, decide_eq_true_iff, not_lt]
  cases s with
  | false =>
    rw [or_iff_right Bool.false_ne_true, if_neg Bool.false_ne_true]
    refine ⟨fun h => by simp [h], fun h => ?_⟩
    have hm : (m : ℚ) ≤ 0 := nonpos_of_mul_nonpos_left h hpow
    exact Nat.le_zero.mp (by exact_mod_cast hm)
  | true =>
    refine iff_of_true (.inl rfl) ?_
    rw [if_pos rfl]
    have : (0 : ℚ) ≤ m * 2 ^ e := by positivity
    linarith

/-- Rounding a whole number keeps its sign. -/
theorem isAtMostZero_ofInt? {i : Int} {x : Binary64} (h : ofInt? i = some x) : x.isAtMostZero = true ↔ i ≤ 0 := by
  have hsign := exceeds_ofQuotient (i < 0) i.natAbs 1 0
  unfold ofInt? at h
  cases hx : ofQuotient (i < 0) i.natAbs 1 with
  | finite s m e =>
    rw [hx] at h hsign
    obtain rfl := Option.some.inj h
    rw [isAtMostZero_finite_iff, hsign]
    rcases lt_trichotomy i 0 with hneg | rfl | hpos
    · rw [if_pos (decide_eq_true hneg), neg_zero]
      exact iff_of_true (rounded_nonneg i.natAbs 1).not_gt hneg.le
    · simp [rounded_zero]
    · rw [if_neg (by simpa using hpos.le)]
      have hone : rounded 1 1 ≤ rounded i.natAbs 1 := rounded_mono Nat.one_pos Nat.one_pos (by omega)
      rw [rounded_one] at hone
      exact iff_of_false (not_not.mpr (lt_of_lt_of_le zero_lt_one hone)) (not_le.mpr hpos)
  | _ => rw [hx] at h; cases h

end Binary64

end ResponseShapes
