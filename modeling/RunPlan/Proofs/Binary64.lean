import RunPlan.Number.Binary64
import Mathlib.Algebra.Order.Field.Power
import Mathlib.Algebra.Order.Field.Rat
import Mathlib.Data.Rat.Cast.Order
import Mathlib.Tactic.FieldSimp
import Mathlib.Tactic.Linarith
import Mathlib.Tactic.Positivity
import Mathlib.Tactic.Ring

/-!
# Rounding to 64 bits

`Binary64.ofRatio` looks at the ratio only (`ofRatio_congr`), so a decimal may be written
with more or fewer zeros (`ofDecimal_mul_pow`), and it takes the exact value of a number
back to that number (`ofRatio_value`). The decimal that `shortest` finds has been read
back already, which makes it a decimal of the number (`isDecimalOf_shortest`).

## Key results

- `roundingExponent_unique`: the exponent is fixed by the ratio
- `ofRatio_congr`: equal ratios round to the same number
- `ofRatio_value`: a number is nearest to its own value
- `isDecimalOf_shortest`: the shortest decimal reads back
-/

namespace RunPlan.Binary64

/-! ## Division -/

/-- The two scalings are the two halves of one power of two. -/
private theorem two_zpow_eq (e : Int) : (2 : ℚ) ^ e = 2 ^ e.toNat / 2 ^ (-e).toNat := by
  rcases Int.le_total 0 e with he | he
  · obtain ⟨n, rfl⟩ := Int.eq_ofNat_of_zero_le he
    simp
  · obtain ⟨n, hn⟩ := Int.eq_ofNat_of_zero_le (Int.neg_nonneg.mpr he)
    obtain rfl : e = -(n : Int) := by omega
    simp [div_eq_mul_inv]

/-- The divisor is positive. -/
private theorem bottom_pos {den : Nat} (hden : 0 < den) (num : Nat) (e : Int) :
    0 < (scaledDivision num den e).2.2 :=
  Nat.mul_pos hden (by positivity)

/-- Quotient and remainder make up the scaled ratio. -/
theorem scaledDivision_eq {den : Nat} (hden : 0 < den) (num : Nat) (e : Int) :
    ((scaledDivision num den e).1 : ℚ) +
        (scaledDivision num den e).2.1 / (scaledDivision num den e).2.2 =
      num / den / 2 ^ e := by
  have hbottom := bottom_pos hden num e
  simp only [scaledDivision] at hbottom ⊢
  have hdivision := Nat.div_add_mod (num * 2 ^ (-e).toNat) (den * 2 ^ e.toNat)
  have hcast : (((den * 2 ^ e.toNat) * (num * 2 ^ (-e).toNat / (den * 2 ^ e.toNat)) +
      num * 2 ^ (-e).toNat % (den * 2 ^ e.toNat) : ℕ) : ℚ) = (num * 2 ^ (-e).toNat : ℕ) := by
    rw [hdivision]
  push_cast at hcast
  rw [two_zpow_eq]
  have hdenq : (den : ℚ) ≠ 0 := by positivity
  field_simp
  push_cast
  field_simp
  linarith

/-- The remainder is below the divisor. -/
theorem scaledDivision_lt {den : Nat} (hden : 0 < den) (num : Nat) (e : Int) :
    (scaledDivision num den e).2.1 < (scaledDivision num den e).2.2 :=
  Nat.mod_lt _ (bottom_pos hden num e)

/-- The quotient is below a number exactly when the scaled ratio is. -/
theorem scaledDivision_lt_iff {den : Nat} (hden : 0 < den) (num n : Nat) (e : Int) :
    (scaledDivision num den e).1 < n ↔ (num / den : ℚ) < n * 2 ^ e := by
  have heq := scaledDivision_eq hden num e
  have hlt := scaledDivision_lt hden num e
  have hpos := bottom_pos hden num e
  generalize (scaledDivision num den e).1 = q at *
  generalize (scaledDivision num den e).2.1 = r at *
  generalize (scaledDivision num den e).2.2 = bottom at *
  have hfraction : (r / bottom : ℚ) < 1 := by
    rw [div_lt_one (by positivity)]
    exact_mod_cast hlt
  have hnonneg : (0 : ℚ) ≤ r / bottom := by positivity
  rw [← div_lt_iff₀ (by positivity), ← heq]
  constructor
  · intro h
    have : (q : ℚ) + 1 ≤ n := by exact_mod_cast h
    linarith
  · intro h
    have : (q : ℚ) < n := by linarith
    exact_mod_cast this

/-! ## The exponent -/

/-- An exponent at which a ratio has a significand of 53 bits, or the least exponent. -/
structure IsRoundingExponent (v : ℚ) (e : Int) : Prop where
  least_le : -1074 ≤ e
  lt : v < 2 ^ 53 * 2 ^ e
  le_or_least : e = -1074 ∨ 2 ^ 52 * 2 ^ e ≤ v

/-- One exponent only fits a ratio. -/
theorem roundingExponent_unique {v : ℚ} {e e' : Int} (h : IsRoundingExponent v e)
    (h' : IsRoundingExponent v e') : e = e' := by
  have hle {e e' : Int} (h : IsRoundingExponent v e) (h' : IsRoundingExponent v e') :
      e' ≤ e := by
    rcases h'.le_or_least with hleast | hlarge
    · exact hleast ▸ h.least_le
    · by_contra hlt
      have hpow : (2 : ℚ) ^ (e + 1) ≤ 2 ^ e' :=
        zpow_le_zpow_right₀ (by norm_num) (by omega)
      rw [zpow_add_one₀ (by norm_num)] at hpow
      have := h.lt
      linarith
  exact Int.le_antisymm (hle h' h) (hle h h')

/-- Bounds of a ratio from the lengths of its two numbers. -/
private theorem ratio_bounds {num den : Nat} (hnum : 0 < num) (hden : 0 < den) :
    (2 : ℚ) ^ ((Nat.log2 num : Int) - Nat.log2 den - 1) < num / den ∧
      (num / den : ℚ) < 2 ^ ((Nat.log2 num : Int) - Nat.log2 den + 1) := by
  have hdenq : (0 : ℚ) < den := by exact_mod_cast hden
  -- both are between the power of two of their length and the next one
  have lower {n : Nat} (hn : 0 < n) : (2 : ℚ) ^ (Nat.log2 n : Int) ≤ n := by
    rw [zpow_natCast]
    exact_mod_cast Nat.log2_self_le hn.ne'
  have upper (n : Nat) : (n : ℚ) < 2 ^ ((Nat.log2 n : Int) + 1) := by
    have h : n < 2 ^ (Nat.log2 n + 1) := Nat.lt_log2_self
    exact_mod_cast h
  constructor
  · rw [lt_div_iff₀ hdenq]
    calc (2 : ℚ) ^ ((Nat.log2 num : Int) - Nat.log2 den - 1) * den
        < 2 ^ ((Nat.log2 num : Int) - Nat.log2 den - 1) * 2 ^ ((Nat.log2 den : Int) + 1) := by
          exact mul_lt_mul_of_pos_left (upper den) (by positivity)
      _ = 2 ^ (Nat.log2 num : Int) := by
          rw [← zpow_add₀ (by norm_num)]
          congr 1
          omega
      _ ≤ num := lower hnum
  · rw [div_lt_iff₀ hdenq]
    calc (num : ℚ) < 2 ^ ((Nat.log2 num : Int) + 1) := upper num
      _ = 2 ^ ((Nat.log2 num : Int) - Nat.log2 den + 1) * 2 ^ (Nat.log2 den : Int) := by
          rw [← zpow_add₀ (by norm_num)]
          congr 1
          omega
      _ ≤ 2 ^ ((Nat.log2 num : Int) - Nat.log2 den + 1) * den :=
          mul_le_mul_of_nonneg_left (lower hden) (by positivity)

/-- The exponent that is chosen fits. -/
theorem isRoundingExponent {num den : Nat} (hnum : 0 < num) (hden : 0 < den) :
    IsRoundingExponent (num / den) (roundingExponent num den) := by
  obtain ⟨hlower, hupper⟩ := ratio_bounds hnum hden
  -- the exponent before it is cut off at the least one
  suffices h : ∃ e : Int, roundingExponent num den = max e (-1074) ∧
      (num / den : ℚ) < 2 ^ 53 * 2 ^ e ∧ 2 ^ 52 * (2 : ℚ) ^ e ≤ num / den by
    obtain ⟨e, hmax, hlt, hle⟩ := h
    rw [hmax]
    rcases Int.le_total (-1074) e with he | he
    · rw [max_eq_left he]
      exact ⟨he, hlt, Or.inr hle⟩
    · rw [max_eq_right he]
      refine ⟨le_rfl, hlt.trans_le ?_, Or.inl rfl⟩
      have hpow : (2 : ℚ) ^ e ≤ 2 ^ (-1074 : Int) := zpow_le_zpow_right₀ (by norm_num) he
      linarith
  have hsplit (a b : Int) : (2 : ℚ) ^ (a + b) = 2 ^ a * 2 ^ b :=
    zpow_add₀ (by norm_num) a b
  refine ⟨_, rfl, ?_⟩
  split
  · rename_i hsmall
    rw [scaledDivision_lt_iff hden] at hsmall
    rw [show (Nat.log2 num : Int) - Nat.log2 den - 1 =
      52 + ((Nat.log2 num : Int) - Nat.log2 den - 52 - 1) by omega, hsplit] at hlower
    rw [show (Nat.log2 num : Int) - Nat.log2 den - 52 =
      1 + ((Nat.log2 num : Int) - Nat.log2 den - 52 - 1) by omega, hsplit] at hsmall
    push_cast at hsmall
    norm_num at hlower hsmall ⊢
    constructor <;> linarith
  · rename_i hlarge
    rw [scaledDivision_lt_iff hden, not_lt] at hlarge
    rw [show (Nat.log2 num : Int) - Nat.log2 den + 1 =
      53 + ((Nat.log2 num : Int) - Nat.log2 den - 52) by omega, hsplit] at hupper
    push_cast at hlarge
    norm_num at hupper hlarge ⊢
    exact ⟨hupper, hlarge⟩

/-! ## Rounding -/

/-- Equal ratios have equal quotients. -/
private theorem quotient_congr {num den num' den' : Nat} (hden : 0 < den) (hden' : 0 < den')
    (h : (num / den : ℚ) = num' / den') (e : Int) :
    (scaledDivision num den e).1 = (scaledDivision num' den' e).1 := by
  have hiff (n : Nat) :
      (scaledDivision num den e).1 < n ↔ (scaledDivision num' den' e).1 < n := by
    rw [scaledDivision_lt_iff hden, scaledDivision_lt_iff hden', h]
  have hle := (hiff ((scaledDivision num' den' e).1 + 1)).mpr (Nat.lt_succ_self _)
  have hge := (hiff ((scaledDivision num den e).1 + 1)).mp (Nat.lt_succ_self _)
  omega

/-- Equal ratios have remainders in the same proportion. -/
private theorem remainder_congr {num den num' den' : Nat} (hden : 0 < den) (hden' : 0 < den')
    (h : (num / den : ℚ) = num' / den') (e : Int) :
    (scaledDivision num den e).2.1 * (scaledDivision num' den' e).2.2 =
      (scaledDivision num' den' e).2.1 * (scaledDivision num den e).2.2 := by
  have heq := scaledDivision_eq hden num e
  have heq' := scaledDivision_eq hden' num' e
  rw [← h, ← heq, quotient_congr hden hden' h, add_right_inj] at heq'
  have hpos : (0 : ℚ) < (scaledDivision num den e).2.2 := by
    exact_mod_cast bottom_pos hden num e
  have hpos' : (0 : ℚ) < (scaledDivision num' den' e).2.2 := by
    exact_mod_cast bottom_pos hden' num' e
  rw [div_eq_div_iff hpos'.ne' hpos.ne'] at heq'
  exact_mod_cast heq'.symm

/-- Whether a remainder is above or at half of the divisor depends on the proportion. -/
private theorem half_congr {r b r' b' : Nat} (hb : 0 < b) (hb' : 0 < b')
    (h : r * b' = r' * b) : (b < 2 * r ↔ b' < 2 * r') ∧ (b = 2 * r ↔ b' = 2 * r') := by
  have hcross : b * b' = b' * b := Nat.mul_comm b b'
  have hdouble : 2 * r * b' = 2 * r' * b := by
    rw [Nat.mul_assoc, h, Nat.mul_assoc]
  constructor
  · rw [← Nat.mul_lt_mul_right hb', hcross, hdouble, Nat.mul_lt_mul_right hb]
  · rw [← Nat.mul_left_inj hb'.ne', hcross, hdouble, Nat.mul_left_inj hb.ne']

/-- Equal ratios are rounded to the same number. -/
theorem ofRatio_congr {num den num' den' : Nat} (hden : 0 < den) (hden' : 0 < den')
    (h : (num / den : ℚ) = num' / den') (negative : Bool) :
    ofRatio negative num den = ofRatio negative num' den' := by
  have hdenq : (0 : ℚ) < den := by exact_mod_cast hden
  have hdenq' : (0 : ℚ) < den' := by exact_mod_cast hden'
  have hzero : num = 0 ↔ num' = 0 := by
    rw [div_eq_div_iff hdenq.ne' hdenq'.ne'] at h
    have hcross : num * den' = num' * den := by exact_mod_cast h
    constructor <;> rintro rfl <;> simp_all <;> omega
  by_cases hnum : num = 0
  · rw [ofRatio, ofRatio, if_pos hnum, if_pos (hzero.mp hnum)]
  · have hnum' : num' ≠ 0 := fun h => hnum (hzero.mpr h)
    have hexponent : roundingExponent num den = roundingExponent num' den' := by
      apply roundingExponent_unique (isRoundingExponent (by omega) hden)
      rw [h]
      exact isRoundingExponent (by omega) hden'
    have hquotient := quotient_congr hden hden' h (roundingExponent num' den')
    obtain ⟨hhalf, htie⟩ := half_congr (bottom_pos hden num (roundingExponent num' den'))
      (bottom_pos hden' num' (roundingExponent num' den')) (remainder_congr hden hden' h _)
    rw [ofRatio, ofRatio, if_neg hnum, if_neg hnum', hexponent]
    simp only [hquotient, hhalf, beq_eq_decide, htie]

/-! ## The value of a number -/

/-- A finite number other than zero has a significand. -/
theorem significand_pos {x : Binary64} (hzero : x.isZero = false) : 0 < x.significand := by
  rw [isZero, beq_eq_false_iff_ne] at hzero
  rw [significand]
  split
  · rename_i hbiased
    rw [biasedExponent] at hbiased
    rw [fraction]
    omega
  · omega

/-- The fields of a finite number fit its exponent. -/
theorem isRoundingExponent_value {x : Binary64} :
    IsRoundingExponent (x.significand * 2 ^ x.exponent) x.exponent := by
  have hfraction : x.fraction < 2 ^ 52 := Nat.mod_lt _ (by decide)
  have hlt : x.significand < 2 ^ 53 := by
    rw [significand]
    split <;> omega
  have hlarge : x.exponent = -1074 ∨ 2 ^ 52 ≤ x.significand := by
    rw [significand, exponent]
    split <;> omega
  have hpow : (0 : ℚ) < 2 ^ x.exponent := by positivity
  refine ⟨by rw [exponent]; omega, ?_, hlarge.imp_right fun h => ?_⟩
  · exact mul_lt_mul_of_pos_right (by exact_mod_cast hlt) hpow
  · exact mul_le_mul_of_nonneg_right (by exact_mod_cast h) hpow.le

/-- The bits of a number, put together from its fields. -/
theorem pack_fields (x : Binary64) :
    pack x.isNegative (x.biasedExponent * 2 ^ 52 + x.fraction) = x := by
  have hlt : x.bits.toNat < 2 ^ 64 := x.bits.toNat_lt
  have hbits : (if x.isNegative then 2 ^ 63 else 0) +
      (x.biasedExponent * 2 ^ 52 + x.fraction) = x.bits.toNat := by
    simp only [isNegative, biasedExponent, fraction, decide_eq_true_eq]
    split <;> omega
  rw [pack, hbits, UInt64.ofNat_toNat]

/-- What is neither finite nor not-a-number has nothing but a sign. -/
theorem infinity_isNegative {x : Binary64} (hfinite : x.isFinite = false)
    (hnan : x.isNaN = false) : infinity x.isNegative = x := by
  have hexponent : x.biasedExponent = 2047 := by
    rwa [isFinite, bne_eq_false_iff_eq] at hfinite
  have hfraction : x.fraction = 0 := by
    rwa [isNaN, hexponent, beq_self_eq_true, Bool.true_and, bne_eq_false_iff_eq] at hnan
  have hfields := pack_fields x
  rwa [hexponent, hfraction, Nat.add_zero] at hfields

/-- A finite number is the nearest one to its own value. -/
theorem ofRatio_value {x : Binary64} (hfinite : x.isFinite = true) (hzero : x.isZero = false)
    {num den : Nat} (hden : 0 < den)
    (h : (num / den : ℚ) = x.significand * 2 ^ x.exponent) :
    ofRatio x.isNegative num den = x := by
  have hpow : (0 : ℚ) < 2 ^ x.exponent := by positivity
  have hnum : 0 < num := by
    rcases Nat.eq_zero_or_pos num with rfl | hnum
    · have hpos : (0 : ℚ) < x.significand := by exact_mod_cast significand_pos hzero
      have := mul_pos hpos hpow
      simp at h
      rcases h with h | h
      · simp [h] at hpos
      · simp [h] at hpow
    · exact hnum
  have hexponent : roundingExponent num den = x.exponent :=
    roundingExponent_unique (h ▸ isRoundingExponent hnum hden) isRoundingExponent_value
  -- the value is a whole multiple of the unit, so nothing remains
  have hquotient : (scaledDivision num den x.exponent).1 = x.significand := by
    apply Nat.le_antisymm
    · rw [← Nat.lt_succ_iff, scaledDivision_lt_iff hden, h]
      apply mul_lt_mul_of_pos_right _ hpow
      exact_mod_cast Nat.lt_succ_self _
    · rw [← Nat.not_lt, scaledDivision_lt_iff hden, h]
      exact lt_irrefl _
  have hremainder : (scaledDivision num den x.exponent).2.1 = 0 := by
    have heq := scaledDivision_eq hden num x.exponent
    have hbottom : (0 : ℚ) < (scaledDivision num den x.exponent).2.2 := by
      exact_mod_cast bottom_pos hden num _
    rw [hquotient, h, mul_div_cancel_right₀ _ hpow.ne', add_eq_left, div_eq_zero_iff] at heq
    rcases heq with heq | heq
    · exact_mod_cast heq
    · exact absurd heq hbottom.ne'
  have hrest : (x.exponent + 1074).toNat * 2 ^ 52 + x.significand =
      x.biasedExponent * 2 ^ 52 + x.fraction := by
    rw [exponent, significand]
    split <;> omega
  have hbound : x.biasedExponent * 2 ^ 52 + x.fraction < 2047 * 2 ^ 52 := by
    have hbiased : x.biasedExponent < 2 ^ 11 := Nat.mod_lt _ (by decide)
    have hfraction : x.fraction < 2 ^ 52 := Nat.mod_lt _ (by decide)
    simp only [isFinite, bne_iff_ne] at hfinite
    omega
  have hpos := bottom_pos hden num x.exponent
  have hup : (decide ((scaledDivision num den x.exponent).2.2 <
      2 * (scaledDivision num den x.exponent).2.1) ||
        (scaledDivision num den x.exponent).2.2 ==
          2 * (scaledDivision num den x.exponent).2.1 && x.significand % 2 == 1) = false := by
    simp [hremainder, hpos.ne']
  rw [ofRatio, if_neg hnum.ne', hexponent]
  simp only [hquotient, hup, Bool.false_eq_true, if_false, hrest, if_pos hbound, pack_fields]

/-! ## Decimals -/

/-- The ratio that a decimal is rounded as. -/
private theorem decimal_ratio (digits : Nat) (power : Int) :
    ((digits * 10 ^ power.toNat : ℕ) : ℚ) / (10 ^ (-power).toNat : ℕ) =
      digits * 10 ^ power := by
  rcases Int.le_total 0 power with he | he
  · obtain ⟨n, rfl⟩ := Int.eq_ofNat_of_zero_le he
    simp
  · obtain ⟨n, hn⟩ := Int.eq_ofNat_of_zero_le (Int.neg_nonneg.mpr he)
    obtain rfl : power = -(n : Int) := by omega
    simp [div_eq_mul_inv]

/-- Zeros at the end of a number are digits at its end. -/
theorem toDigits_mul_pow {digits : Nat} (hdigits : 0 < digits) (k : Nat) :
    Nat.toDigits 10 (digits * 10 ^ k) = Nat.toDigits 10 digits ++ List.replicate k '0' := by
  induction k with
  | zero => simp
  | succ k ih =>
    have hpos : 0 < digits * 10 ^ k := Nat.mul_pos hdigits (by positivity)
    have happend := Nat.toDigits_append_toDigits (b := 10) (d := 0) (by decide) hpos
      (by decide)
    rw [Nat.toDigits_zero, Nat.add_zero] at happend
    rw [Nat.pow_succ, ← Nat.mul_assoc, Nat.mul_comm _ 10, ← happend, ih, List.append_assoc,
      List.replicate_succ']

/-- Decimals of the same value are rounded to the same number. -/
theorem ofDecimal_mul_pow {digits : Nat} (hdigits : 0 < digits) (k : Nat) (power : Int)
    (negative : Bool) :
    ofDecimal negative (digits * 10 ^ k) (power - k) = ofDecimal negative digits power := by
  have hpos : 0 < digits * 10 ^ k := Nat.mul_pos hdigits (by positivity)
  have hsize : ((Nat.toDigits 10 (digits * 10 ^ k)).length : Int) + (power - k) =
      (Nat.toDigits 10 digits).length + power := by
    rw [toDigits_mul_pow hdigits]
    simp
  have hratio : ofRatio negative (digits * 10 ^ k * 10 ^ (power - k).toNat)
      (10 ^ (-(power - k)).toNat) =
      ofRatio negative (digits * 10 ^ power.toNat) (10 ^ (-power).toNat) := by
    apply ofRatio_congr (by positivity) (by positivity)
    rw [decimal_ratio, decimal_ratio]
    push_cast
    rw [zpow_sub₀ (by norm_num), zpow_natCast]
    field_simp
  rw [ofDecimal, ofDecimal, if_neg hpos.ne', if_neg hdigits.ne']
  simp only [hsize, hratio]

/-- No digits make zero. -/
theorem ofDecimal_zero (negative : Bool) (power : Int) :
    ofDecimal negative 0 power = pack negative 0 :=
  rfl

/-- What is packed without other bits is zero. -/
theorem isZero_pack_zero (negative : Bool) : (pack negative 0).isZero = true := by
  cases negative <;> rfl

/-! ## Shortest decimals -/

/-- A decimal that reads back as a number. -/
def IsDecimalOf (x : Binary64) (decimal : Nat × Int) : Prop :=
  ofDecimal x.isNegative decimal.1 decimal.2 = x

/-- A decimal of a number other than zero has digits. -/
theorem IsDecimalOf.digits_pos {x : Binary64} (hzero : x.isZero = false)
    {decimal : Nat × Int} (h : IsDecimalOf x decimal) : 0 < decimal.1 := by
  rcases Nat.eq_zero_or_pos decimal.1 with hdigits | hdigits
  · rw [IsDecimalOf, hdigits, ofDecimal_zero] at h
    rw [← h, isZero_pack_zero] at hzero
    exact Bool.noConfusion hzero
  · exact hdigits

/-- Dropping zeros at the end keeps the value. -/
theorem IsDecimalOf.dropZeros {x : Binary64} (hzero : x.isZero = false) (fuel : Nat)
    {decimal : Nat × Int} (h : IsDecimalOf x decimal) :
    IsDecimalOf x (dropZeros fuel decimal.1 decimal.2) := by
  induction fuel generalizing decimal with
  | zero => exact h
  | succ fuel ih =>
    obtain ⟨digits, power⟩ := decimal
    rw [Binary64.dropZeros]
    split
    · rename_i hlast
      have hdigits : 0 < digits := h.digits_pos hzero
      have hpos : 0 < digits / 10 := by omega
      have hscale := ofDecimal_mul_pow hpos 1 (power + 1) x.isNegative
      rw [show digits / 10 * 10 ^ 1 = digits by omega,
        show power + 1 - ((1 : Nat) : Int) = power by omega] at hscale
      have hshorter : IsDecimalOf x (digits / 10, power + 1) := by
        rw [IsDecimalOf] at h ⊢
        rw [← hscale]
        exact h
      exact ih hshorter
    · exact h

/-- The first of two candidates that passes a test passes it. -/
private theorem of_firstPassing (test : Nat → Bool) {near far : Nat} {power : Int}
    {decimal : Nat × Int}
    (h : (if test near then some (near, power)
      else if test far then some (far, power) else none) = some decimal) :
    test decimal.1 = true ∧ decimal.2 = power := by
  split at h
  · obtain rfl : (near, power) = decimal := by simpa using h
    exact ⟨‹_›, rfl⟩
  split at h
  · obtain rfl : (far, power) = decimal := by simpa using h
    exact ⟨‹_›, rfl⟩
  · simp at h

/-- The decimals that are tried have been read back. -/
theorem isDecimalOf_decimalOf? {x : Binary64} {tie : Tie} {top : Int} {count : Nat}
    {decimal : Nat × Int} (h : decimalOf? x tie top count = some decimal) :
    IsDecimalOf x decimal := by
  obtain ⟨hback, hpower⟩ := of_firstPassing
    (fun digits => ofDecimal x.isNegative digits (top - count) == x) h
  rw [IsDecimalOf, hpower]
  exact eq_of_beq hback

/-- The decimal that is found has been read back. -/
theorem isDecimalOf_searchDecimal {x : Binary64} {tie : Tie} {top : Int} {fuel count : Nat}
    {decimal : Nat × Int} (h : searchDecimal x tie top fuel count = some decimal) :
    IsDecimalOf x decimal := by
  induction fuel generalizing count with
  | zero => simp [searchDecimal] at h
  | succ fuel ih =>
    rw [searchDecimal] at h
    split at h
    · rename_i hfound
      exact Option.some.inj h ▸ isDecimalOf_decimalOf? hfound
    · exact ih h

/-- The exact decimal has the value of the number. -/
private theorem exactDecimal_value (x : Binary64) :
    (x.exactDecimal.1 : ℚ) * 10 ^ x.exactDecimal.2 = x.significand * 2 ^ x.exponent := by
  rw [exactDecimal]
  rcases Int.le_total 0 x.exponent with he | he
  · obtain ⟨n, hn⟩ := Int.eq_ofNat_of_zero_le he
    simp [hn]
  · obtain ⟨n, hn⟩ := Int.eq_ofNat_of_zero_le (Int.neg_nonneg.mpr he)
    obtain hexponent : x.exponent = -(n : Int) := by omega
    have hten : (10 : ℚ) ^ n = 5 ^ n * 2 ^ n := by
      rw [← mul_pow]
      norm_num
    have hmin : min (-(n : Int)) 0 = -n := by omega
    simp only [hexponent, hmin, neg_neg, Int.toNat_natCast, Int.toNat_neg_natCast, pow_zero,
      mul_one, zpow_neg, zpow_natCast, hten]
    push_cast
    field_simp

/-- A number below a power of ten has no more digits than that. -/
private theorem length_toDigits_le {n k : Nat} (hk : 0 < k) (h : n < 10 ^ k) :
    (Nat.toDigits 10 n).length ≤ k :=
  (Nat.length_toDigits_le_iff (by decide) hk).mpr h

/-- A number not below a power of ten has more digits than that. -/
private theorem lt_length_toDigits {n k : Nat} (h : 10 ^ k ≤ n) :
    k < (Nat.toDigits 10 n).length := by
  rcases Nat.eq_zero_or_pos k with rfl | hk
  · exact Nat.length_toDigits_pos
  · rw [← Nat.not_le, Nat.length_toDigits_le_iff (by decide) hk]
    omega

/-- Three doublings stay below a factor of ten. -/
private theorem two_pow_le_ten_pow {n k : Nat} (h : n ≤ 3 * k) : 2 ^ n ≤ 10 ^ k := by
  calc 2 ^ n ≤ 2 ^ (3 * k) := Nat.pow_le_pow_right (by decide) h
    _ = (2 ^ 3) ^ k := Nat.pow_mul 2 3 k
    _ ≤ 10 ^ k := Nat.pow_le_pow_left (by decide) k

/-- Two doublings stay below a factor of five. -/
private theorem two_pow_le_five_pow {n k : Nat} (h : n ≤ 2 * k) : 2 ^ n ≤ 5 ^ k := by
  calc 2 ^ n ≤ 2 ^ (2 * k) := Nat.pow_le_pow_right (by decide) h
    _ = (2 ^ 2) ^ k := Nat.pow_mul 2 2 k
    _ ≤ 5 ^ k := Nat.pow_le_pow_left (by decide) k

/-- A whole number of 53 bits and a power of two that a number can have. -/
private theorem length_large {m n : Nat} (hm : m < 2 ^ 53) (hn : n ≤ 971) :
    (Nat.toDigits 10 (m * 2 ^ n)).length ≤ 400 := by
  apply length_toDigits_le (by decide)
  calc m * 2 ^ n < 2 ^ 53 * 2 ^ n := Nat.mul_lt_mul_of_pos_right hm (by positivity)
    _ = 2 ^ (53 + n) := (Nat.pow_add 2 53 n).symm
    _ ≤ 10 ^ 400 := two_pow_le_ten_pow (by omega)

/-- A whole number of 53 bits and a power of one half that a number can have, in units of
    the last digit. -/
private theorem length_small {m n : Nat} (hpos : 0 < m) (hm : m < 2 ^ 53) (hn : n ≤ 1074) :
    (Nat.toDigits 10 (m * 5 ^ n)).length ≤ n + 400 ∧
      n ≤ (Nat.toDigits 10 (m * 5 ^ n)).length + 400 := by
  constructor
  · have hupper : m * 5 ^ n < 10 ^ (n + 16) := by
      calc m * 5 ^ n < 2 ^ 53 * 5 ^ n := Nat.mul_lt_mul_of_pos_right hm (by positivity)
        _ ≤ 10 ^ 16 * 10 ^ n :=
            Nat.mul_le_mul (by norm_num) (Nat.pow_le_pow_left (by decide) n)
        _ = 10 ^ (n + 16) := by rw [← Nat.pow_add, Nat.add_comm]
    have := length_toDigits_le (by omega) hupper
    omega
  · rcases Nat.lt_or_ge n 401 with hsmall | hlarge
    · omega
    · obtain ⟨k, rfl⟩ := Nat.exists_eq_add_of_le hlarge
      have hlower : 10 ^ k ≤ m * 5 ^ (401 + k) := by
        calc 10 ^ k = 2 ^ k * 5 ^ k := by rw [← Nat.mul_pow]
          _ ≤ 5 ^ 401 * 5 ^ k := Nat.mul_le_mul_right _ (two_pow_le_five_pow (by omega))
          _ = 5 ^ (401 + k) := (Nat.pow_add 5 401 k).symm
          _ ≤ m * 5 ^ (401 + k) := Nat.le_mul_of_pos_left _ hpos
      have := lt_length_toDigits hlower
      omega

/-- The exact decimal is neither so long nor so small that its size decides. -/
private theorem exactDecimal_size {x : Binary64} (hfinite : x.isFinite = true)
    (hzero : x.isZero = false) :
    ((Nat.toDigits 10 x.exactDecimal.1).length : Int) + x.exactDecimal.2 ≤ 400 ∧
      -400 ≤ ((Nat.toDigits 10 x.exactDecimal.1).length : Int) + x.exactDecimal.2 := by
  have hlt : x.significand < 2 ^ 53 := by
    have hfraction : x.fraction < 2 ^ 52 := Nat.mod_lt _ (by decide)
    rw [significand]
    split <;> omega
  have hexponent : -1074 ≤ x.exponent ∧ x.exponent ≤ 971 := by
    have hbiased : x.biasedExponent < 2 ^ 11 := Nat.mod_lt _ (by decide)
    simp only [isFinite, bne_iff_ne] at hfinite
    rw [exponent]
    omega
  rw [exactDecimal]
  rcases Int.le_total 0 x.exponent with he | he
  · obtain ⟨n, hn⟩ := Int.eq_ofNat_of_zero_le he
    have hlength := length_large (n := n) hlt (by omega)
    simp only [hn, Int.toNat_natCast, Int.toNat_neg_natCast, pow_zero, mul_one]
    omega
  · obtain ⟨n, hn⟩ := Int.eq_ofNat_of_zero_le (Int.neg_nonneg.mpr he)
    obtain hexp : x.exponent = -(n : Int) := by omega
    have hlength := length_small (n := n) (significand_pos hzero) hlt (by omega)
    simp only [hexp, neg_neg, Int.toNat_natCast, Int.toNat_neg_natCast, pow_zero, mul_one]
    omega

/-- The exact decimal reads back. -/
private theorem isDecimalOf_exactDecimal {x : Binary64} (hfinite : x.isFinite = true)
    (hzero : x.isZero = false) : IsDecimalOf x x.exactDecimal := by
  have hvalue := exactDecimal_value x
  obtain ⟨hlarge, hsmall⟩ := exactDecimal_size hfinite hzero
  have hdigits : x.exactDecimal.1 ≠ 0 := by
    have hpos : (0 : ℚ) < x.significand * 2 ^ x.exponent :=
      mul_pos (by exact_mod_cast significand_pos hzero) (by positivity)
    intro hdigits
    rw [hdigits, Nat.cast_zero, zero_mul] at hvalue
    exact hpos.ne hvalue
  rw [IsDecimalOf, ofDecimal, if_neg hdigits]
  simp only [if_neg (Int.not_lt.mpr hlarge), if_neg (Int.not_lt.mpr hsmall)]
  apply ofRatio_value hfinite hzero (by positivity)
  rw [decimal_ratio, hvalue]

/-- The shortest decimal of a finite number other than zero reads back. -/
theorem isDecimalOf_shortest {x : Binary64} (hfinite : x.isFinite = true)
    (hzero : x.isZero = false) (tie : Tie) : IsDecimalOf x (x.shortest tie) := by
  have hfound : IsDecimalOf x ((searchDecimal x tie
      (decimalMagnitude x.magnitude.1 x.magnitude.2) 17 1).getD x.exactDecimal) := by
    cases hsearch : searchDecimal x tie (decimalMagnitude x.magnitude.1 x.magnitude.2) 17 1 with
    | none => exact isDecimalOf_exactDecimal hfinite hzero
    | some decimal => exact isDecimalOf_searchDecimal hsearch
  exact IsDecimalOf.dropZeros hzero 20 hfound

end RunPlan.Binary64
