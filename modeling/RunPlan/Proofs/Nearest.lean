import RunPlan.Proofs.Decimal
import RunPlan.Proofs.Validity
import RunPlan.Yaml.Scalar

/-!
# Rounding to the nearest number

`Binary64.ofRatio` finds a number that is as near to a ratio as any other. Numbers with a
smaller exponent lie below the rounded quotient, so that only multiples of the unit have to
be compared with it.

## Key results

- `isNearest_ofRatio`: a ratio in the range is rounded to a nearest number
- `isNearest_of_readFloat?`: an integer of 64 bits is read as a nearest number
-/

namespace RunPlan.Binary64

/-- A finite number that is as near to a rational number as any other. -/
structure IsNearest (x : Binary64) (r : ℚ) : Prop where
  finite : x.isFinite = true
  le (y : Binary64) (hy : y.isFinite = true) : |x.value - r| ≤ |y.value - r|

/-- Where some number has just the value, the nearest one does. -/
theorem IsNearest.value_eq {x y : Binary64} {r : ℚ} (h : x.IsNearest r)
    (hy : y.isFinite = true) (hvalue : y.value = r) : x.value = r := by
  have hle := h.le y hy
  rw [hvalue, sub_self, abs_zero, abs_nonpos_iff, sub_eq_zero] at hle
  exact hle

/-! ## The rounded quotient -/

/-- Whether a quotient is rounded up. -/
def roundsUp (division : Nat × Nat × Nat) : Bool :=
  division.2.2 < 2 * division.2.1 ||
    (division.2.2 == 2 * division.2.1 && division.1 % 2 == 1)

/-- A quotient rounded to the nearest integer. -/
def roundedQuotient (division : Nat × Nat × Nat) : Nat :=
  if roundsUp division then division.1 + 1 else division.1

/-- A quotient is rounded up from half of the divisor on. -/
private theorem half_le_of_roundsUp {q r bottom : Nat} (hbottom : 0 < bottom)
    (h : roundsUp (q, r, bottom) = true) : (1 / 2 : ℚ) ≤ r / bottom := by
  have hle : bottom ≤ 2 * r := by
    simp only [roundsUp, Bool.or_eq_true, Bool.and_eq_true, decide_eq_true_eq, beq_iff_eq] at h
    omega
  rw [div_le_div_iff₀ (by norm_num) (by exact_mod_cast hbottom)]
  have : (bottom : ℚ) ≤ 2 * r := by exact_mod_cast hle
  linarith

/-- A quotient is rounded down up to half of the divisor. -/
private theorem le_half_of_roundsUp {q r bottom : Nat} (hbottom : 0 < bottom)
    (h : roundsUp (q, r, bottom) = false) : (r / bottom : ℚ) ≤ 1 / 2 := by
  have hle : 2 * r ≤ bottom := by
    simp only [roundsUp, Bool.or_eq_false_iff, decide_eq_false_iff_not] at h
    omega
  rw [div_le_div_iff₀ (by exact_mod_cast hbottom) (by norm_num)]
  have : (2 * r : ℚ) ≤ bottom := by exact_mod_cast hle
  linarith

/-- The rounded quotient is as near to the ratio as the multiples of the unit around it. -/
theorem roundedQuotient_near {den : Nat} (hden : 0 < den) (num : Nat) (e : Int) :
    |(roundedQuotient (scaledDivision num den e) : ℚ) * 2 ^ e - num / den| ≤
        num / den - (scaledDivision num den e).1 * 2 ^ e ∧
      |(roundedQuotient (scaledDivision num den e) : ℚ) * 2 ^ e - num / den| ≤
        ((scaledDivision num den e).1 + 1) * 2 ^ e - num / den := by
  have hunit : (0 : ℚ) < 2 ^ e := by positivity
  have heq := scaledDivision_eq hden num e
  have hlt := scaledDivision_lt hden num e
  rw [eq_div_iff hunit.ne'] at heq
  generalize scaledDivision num den e = division at *
  obtain ⟨q, r, bottom⟩ := division
  dsimp only at heq hlt ⊢
  have hbottom : 0 < bottom := by omega
  have hfraction : (r / bottom : ℚ) < 1 := by
    rw [div_lt_one (by exact_mod_cast hbottom)]
    exact_mod_cast hlt
  have hnonneg : (0 : ℚ) ≤ r / bottom := by positivity
  rw [← heq]
  -- the ratio is `q + t` units, and rounding goes up only if `t` is at least a half
  cases hup : roundsUp (q, r, bottom) with
  | true =>
    have hhalf := half_le_of_roundsUp hbottom hup
    generalize (r / bottom : ℚ) = t at *
    have habs : |((q + 1 : Nat) : ℚ) * 2 ^ e - (q + t) * 2 ^ e| = (1 - t) * 2 ^ e := by
      rw [abs_of_nonneg] <;> push_cast <;> nlinarith
    simp only [roundedQuotient, hup, if_true, habs]
    constructor <;> nlinarith
  | false =>
    have hhalf := le_half_of_roundsUp hbottom hup
    generalize (r / bottom : ℚ) = t at *
    have habs : |(q : ℚ) * 2 ^ e - (q + t) * 2 ^ e| = t * 2 ^ e := by
      rw [abs_sub_comm, abs_of_nonneg] <;> nlinarith
    simp only [roundedQuotient, hup, Bool.false_eq_true, if_false, habs]
    constructor <;> nlinarith

/-! ## Magnitudes of numbers -/

/-- No number has a magnitude nearer to a ratio than the rounded quotient. -/
theorem roundedQuotient_le {num den : Nat} (hnum : 0 < num) (hden : 0 < den) (y : Binary64) :
    |(roundedQuotient (scaledDivision num den (roundingExponent num den)) : ℚ) *
        2 ^ roundingExponent num den - num / den| ≤
      |(y.significand : ℚ) * 2 ^ y.exponent - num / den| := by
  have hexponent := isRoundingExponent hnum hden
  obtain ⟨hbelow, habove⟩ := roundedQuotient_near hden num (roundingExponent num den)
  have hquotient := scaledDivision_lt_iff hden num (2 ^ 52) (roundingExponent num den)
  generalize roundingExponent num den = e at *
  generalize (scaledDivision num den e).1 = q at *
  generalize |(roundedQuotient (scaledDivision num den e) : ℚ) * 2 ^ e - num / den| = d at *
  have hunit : (0 : ℚ) < 2 ^ e := by positivity
  rcases le_or_gt e y.exponent with he | he
  · -- a multiple of the unit: it is not between the two that are around the ratio
    obtain ⟨k, hk⟩ := Int.eq_ofNat_of_zero_le (Int.sub_nonneg.mpr he)
    have hmultiple : (y.significand : ℚ) * 2 ^ y.exponent =
        ((y.significand * 2 ^ k : Nat) : ℚ) * 2 ^ e := by
      rw [show y.exponent = (k : Int) + e by omega, zpow_add₀ (by norm_num), zpow_natCast]
      push_cast
      ring
    rw [hmultiple]
    generalize y.significand * 2 ^ k = m
    rcases Nat.lt_or_ge q m with hm | hm
    · have hle : ((q : ℚ) + 1) * 2 ^ e ≤ m * 2 ^ e :=
        mul_le_mul_of_nonneg_right (by exact_mod_cast hm) hunit.le
      exact (habove.trans (by linarith)).trans (le_abs_self _)
    · have hle : (m : ℚ) * 2 ^ e ≤ q * 2 ^ e :=
        mul_le_mul_of_nonneg_right (by exact_mod_cast hm) hunit.le
      rw [abs_sub_comm]
      exact (hbelow.trans (by linarith)).trans (le_abs_self _)
  · -- a smaller exponent: the quotient has 53 bits, so the number is below it
    have hlarge : 2 ^ 52 * (2 : ℚ) ^ e ≤ num / den := by
      rcases hexponent.le_or_least with hleast | hlarge
      · have := (isRoundingExponent_value (x := y)).least_le
        omega
      · exact hlarge
    have hq : 2 ^ 52 ≤ q := by
      by_contra hlt
      have := hquotient.mp (by omega)
      push_cast at this
      linarith
    have hqlarge : (2 : ℚ) ^ 52 * 2 ^ e ≤ q * 2 ^ e :=
      mul_le_mul_of_nonneg_right (by exact_mod_cast hq) hunit.le
    have hy := (isRoundingExponent_value (x := y)).lt
    have hpow : (2 : ℚ) ^ (y.exponent + 1) ≤ 2 ^ e :=
      zpow_le_zpow_right₀ (by norm_num) (by omega)
    rw [zpow_add_one₀ (by norm_num)] at hpow
    rw [abs_sub_comm]
    exact (hbelow.trans (by linarith)).trans (le_abs_self _)

/-! ## The nearest number -/

/-- The fields of a packed number. -/
theorem fields_pack (negative : Bool) {rest : Nat} (h : rest < 2 ^ 63) :
    (pack negative rest).isNegative = negative ∧
      (pack negative rest).biasedExponent = rest / 2 ^ 52 % 2 ^ 11 ∧
      (pack negative rest).fraction = rest % 2 ^ 52 := by
  have hbits : (pack negative rest).bits.toNat = (if negative then 2 ^ 63 else 0) + rest := by
    rw [pack, UInt64.toNat_ofNat_of_lt']
    simp only [UInt64.size]
    split <;> omega
  rw [isNegative, biasedExponent, fraction, hbits]
  cases negative with
  | true =>
    rw [if_pos rfl, decide_eq_true_eq]
    omega
  | false =>
    rw [if_neg Bool.false_ne_true, decide_eq_false_iff_not]
    omega

/-- A packed significand with its exponent has the value that they make. A significand of
    54 bits is carried into the exponent. -/
theorem value_pack (negative : Bool) {e : Int} {n : Nat} (hleast : -1074 ≤ e)
    (hn : n ≤ 2 ^ 53) (hlarge : e = -1074 ∨ 2 ^ 52 ≤ n)
    (hfit : (e + 1074).toNat * 2 ^ 52 + n < 2047 * 2 ^ 52) :
    (pack negative ((e + 1074).toNat * 2 ^ 52 + n)).isFinite = true ∧
      (pack negative ((e + 1074).toNat * 2 ^ 52 + n)).value =
        (if negative then -1 else 1) * (n * 2 ^ e) := by
  obtain ⟨hnegative, hbiased, hfraction⟩ :=
    fields_pack negative (show (e + 1074).toNat * 2 ^ 52 + n < 2 ^ 63 by omega)
  rw [isFinite, bne_iff_ne, value, significand, exponent, hnegative, hbiased, hfraction]
  refine ⟨by omega, ?_⟩
  congr 1
  -- a subnormal number, a normal one, or one that is carried to the next exponent
  rcases Nat.lt_or_ge n (2 ^ 52) with hsmall | hnormal
  · have hbiased : ((e + 1074).toNat * 2 ^ 52 + n) / 2 ^ 52 % 2 ^ 11 = 0 := by omega
    have hfraction : ((e + 1074).toNat * 2 ^ 52 + n) % 2 ^ 52 = n := by omega
    have hexponent : e = (max 1 0 : Nat) - 1075 := by omega
    rw [hbiased, hfraction, if_pos rfl, hexponent]
  rcases Nat.lt_or_ge n (2 ^ 53) with hbits | hcarry
  · have hbiased : ((e + 1074).toNat * 2 ^ 52 + n) / 2 ^ 52 % 2 ^ 11 = (e + 1074).toNat + 1 := by
      omega
    have hfraction : 2 ^ 52 + ((e + 1074).toNat * 2 ^ 52 + n) % 2 ^ 52 = n := by omega
    have hexponent : ((max 1 ((e + 1074).toNat + 1) : Nat) : Int) - 1075 = e := by omega
    rw [hbiased, if_neg (Nat.succ_ne_zero _), hfraction, hexponent]
  · obtain rfl : n = 2 ^ 53 := by omega
    have hbiased : ((e + 1074).toNat * 2 ^ 52 + 2 ^ 53) / 2 ^ 52 % 2 ^ 11 =
        (e + 1074).toNat + 2 := by omega
    have hfraction : 2 ^ 52 + ((e + 1074).toNat * 2 ^ 52 + 2 ^ 53) % 2 ^ 52 = 2 ^ 52 := by omega
    have hexponent : ((max 1 ((e + 1074).toNat + 2) : Nat) : Int) - 1075 = e + 1 := by omega
    rw [hbiased, if_neg (Nat.succ_ne_zero _), hfraction, hexponent, zpow_add_one₀ (by norm_num)]
    push_cast
    ring

/-- Zero of either sign. -/
private theorem significand_pack_zero (negative : Bool) : (pack negative 0).significand = 0 := by
  cases negative <;> rfl

/-- A ratio in the range is rounded to the rounded quotient. -/
private theorem value_ofRatio (negative : Bool) {num den : Nat} (hnum : 0 < num)
    (hden : 0 < den) (hrange : (num / den : ℚ) < 2 ^ 1023) :
    (ofRatio negative num den).isFinite = true ∧ (ofRatio negative num den).value =
      (if negative then -1 else 1) *
        (roundedQuotient (scaledDivision num den (roundingExponent num den)) *
          2 ^ roundingExponent num den) := by
  have hround : ofRatio negative num den =
      if (roundingExponent num den + 1074).toNat * 2 ^ 52 +
          roundedQuotient (scaledDivision num den (roundingExponent num den)) < 2047 * 2 ^ 52
      then pack negative ((roundingExponent num den + 1074).toNat * 2 ^ 52 +
          roundedQuotient (scaledDivision num den (roundingExponent num den)))
      else infinity negative := by
    rw [ofRatio, if_neg hnum.ne']
    rfl
  have hexponent := isRoundingExponent hnum hden
  have hquotient (n : Nat) := scaledDivision_lt_iff hden num n (roundingExponent num den)
  rw [hround]
  generalize roundingExponent num den = e at *
  generalize scaledDivision num den e = division at *
  have hle : division.1 ≤ roundedQuotient division ∧
      roundedQuotient division ≤ division.1 + 1 := by
    rw [roundedQuotient]
    split <;> omega
  have hupper : division.1 < 2 ^ 53 := (hquotient _).mpr (by exact_mod_cast hexponent.lt)
  have hlower : e = -1074 ∨ 2 ^ 52 ≤ division.1 := by
    refine hexponent.le_or_least.imp_right fun hlarge => ?_
    by_contra hlt
    have := (hquotient (2 ^ 52)).mp (by omega)
    push_cast at this
    linarith
  -- the range keeps the exponent off the one of infinity, even with a carry
  have hsmall : e < 971 := by
    rcases hexponent.le_or_least with hleast | hlarge
    · omega
    · have hpow : (2 : ℚ) ^ (52 + e) < 2 ^ (1023 : Int) := by
        rw [zpow_add₀ (by norm_num)]
        exact_mod_cast hlarge.trans_lt hrange
      have := (zpow_lt_zpow_iff_right₀ (by norm_num)).mp hpow
      omega
  have hleast := hexponent.least_le
  have hfit : (e + 1074).toNat * 2 ^ 52 + roundedQuotient division < 2047 * 2 ^ 52 := by omega
  rw [if_pos hfit]
  exact value_pack negative hleast (by omega) (hlower.imp_right fun h => h.trans hle.1) hfit

/-- A ratio in the range is rounded to a nearest number. -/
theorem isNearest_ofRatio (negative : Bool) {num den : Nat} (hden : 0 < den)
    (hrange : (num / den : ℚ) < 2 ^ 1023) :
    IsNearest (ofRatio negative num den) ((if negative then -1 else 1) * (num / den)) := by
  rcases Nat.eq_zero_or_pos num with rfl | hnum
  · rw [ofRatio, if_pos rfl]
    refine ⟨by cases negative <;> rfl, fun y _ => ?_⟩
    rw [value, significand_pack_zero]
    simp
  obtain ⟨hfinite, hvalue⟩ := value_ofRatio negative hnum hden hrange
  clear hrange
  refine ⟨hfinite, fun y _ => ?_⟩
  have hnear := roundedQuotient_le hnum hden y
  -- zero is a number too, so the quotient is nearer than any number of the other sign
  have hpositive := roundedQuotient_le hnum hden (pack false 0)
  rw [significand_pack_zero, Nat.cast_zero, zero_mul, zero_sub, abs_neg] at hpositive
  rw [hvalue, value]
  have hratio : (0 : ℚ) < num / den := by positivity
  have hmagnitude : (0 : ℚ) ≤ y.significand * 2 ^ y.exponent := by positivity
  rw [abs_of_pos hratio] at hpositive
  generalize (num / den : ℚ) = v at *
  generalize (y.significand : ℚ) * 2 ^ y.exponent = m at *
  generalize (roundedQuotient _ : ℚ) * 2 ^ _ = r at *
  cases negative <;> cases y.isNegative <;>
    simp only [Bool.false_eq_true, if_true, if_false, one_mul, neg_one_mul]
  · exact hnear
  · rw [abs_of_nonpos (show -m - v ≤ 0 by linarith)]
    linarith
  · rw [neg_sub_neg, abs_sub_comm, sub_neg_eq_add, abs_of_pos (show 0 < m + v by linarith)]
    linarith
  · rw [neg_sub_neg, neg_sub_neg, abs_sub_comm, abs_sub_comm v]
    exact hnear

/-! ## Integers -/

/-- An integer is a decimal without a point. -/
private theorem read?_ofInt (n : Int) :
    read? (Numeral.ofInt n).toList = some (ofDecimal (decide (n < 0)) n.natAbs 0) := by
  have hdigit {c : Char} (hc : c ∈ Nat.toDigits 10 n.natAbs) : Text.isDigit c = true :=
    Numeral.isDigit_of_mem_toDigits hc
  have hread (negative : Bool) : readUnsigned? negative (Nat.toDigits 10 n.natAbs) =
      some (ofDecimal negative n.natAbs 0) := by
    have h := @readUnsigned?_whole _ [] (Numeral.toDigits_ne_nil n.natAbs)
      (fun _ => hdigit) (by simp) (by simp) _ _ Nat.ofDigitChars_ten_toDigits rfl negative
    rwa [List.append_nil] at h
  rw [Numeral.ofInt, Numeral.ofNat]
  split
  · rename_i hneg
    have htext : ("-" ++ String.ofList (Nat.toDigits 10 n.natAbs)).toList =
        '-' :: Nat.toDigits 10 n.natAbs := by
      simp
    rw [htext, decide_eq_true hneg]
    exact hread true
  · rename_i hneg
    rw [String.toList_ofList, decide_eq_false hneg, ← hread false]
    have hsign {c : Char} (hc : Text.isDigit c = false) (rest : List Char) :
        Nat.toDigits 10 n.natAbs ≠ c :: rest := by
      intro h
      rw [hdigit (h ▸ List.mem_cons_self)] at hc
      exact Bool.noConfusion hc
    rw [read?]
    · exact fun rest => hsign (by decide) rest
    · exact fun rest => hsign (by decide) rest

/-- A whole number of 64 bits is nearest to the number that its digits are rounded to. -/
private theorem isNearest_ofDecimal (negative : Bool) {n : Nat} (h : n < 2 ^ 64) :
    IsNearest (ofDecimal negative n 0) ((if negative then -1 else 1) * n) := by
  have hratio : ofDecimal negative n 0 = ofRatio negative n 1 := by
    have hsize : (Nat.toDigits 10 n).length ≤ 20 :=
      (Nat.length_toDigits_le_iff (by decide) (by decide)).mpr (by omega)
    rw [ofDecimal]
    split
    · rename_i hzero
      rw [hzero, ofRatio, if_pos rfl]
    · rw [if_neg (by omega), if_neg (by omega), Int.toNat_zero, pow_zero, mul_one]
      rfl
  have hrange : (n / (1 : Nat) : ℚ) < 2 ^ 1023 := by
    have hn : (n : ℚ) < 2 ^ 64 := by exact_mod_cast h
    rw [Nat.cast_one, div_one]
    exact hn.trans (pow_lt_pow_right₀ (by norm_num) (by norm_num))
  have hnear := isNearest_ofRatio negative one_pos hrange
  rwa [Nat.cast_one, div_one, ← hratio] at hnear

/-- An integer of 64 bits is read as a nearest number. -/
theorem isNearest_of_readFloat? {n : Int} (hlow : -2 ^ 63 ≤ n) (hhigh : n < 2 ^ 64)
    {x : Binary64} (h : Yaml.readFloat? (Numeral.ofInt n).toList = some x) : IsNearest x n := by
  have hmem {c : Char} (hc : c ∈ (Numeral.ofInt n).toList) := Numeral.mem_ofInt hc
  have hplus : ∀ rest, (Numeral.ofInt n).toList ≠ '+' :: rest := by
    intro rest heq
    have := hmem (heq ▸ List.mem_cons_self)
    revert this
    decide
  -- every word that stands for a number has a point
  have hword {word : String} (hpoint : '.' ∈ word.toList) : Numeral.ofInt n ≠ word := by
    rintro rfl
    have := hmem hpoint
    revert this
    decide
  have hpoint : ∀ word ∈ [".inf", ".Inf", ".INF", "-.inf", "-.Inf", "-.INF", ".nan", ".NaN",
      ".NAN"], '.' ∈ word.toList := by decide
  have hwords := fun word hmem => hword (hpoint word hmem)
  simp only [List.forall_mem_cons] at hwords
  have hx : ofDecimal (decide (n < 0)) n.natAbs 0 = x := by
    rw [Yaml.readFloat?] at h
    · have hfinite : (ofDecimal (decide (n < 0)) n.natAbs 0).isFinite = true ∧
          ofDecimal (decide (n < 0)) n.natAbs 0 = x := by
        simpa [read?_ofInt, hwords] using h
      exact hfinite.2
    · exact fun rest => hplus rest
  have hnear := isNearest_ofDecimal (decide (n < 0)) (show n.natAbs < 2 ^ 64 by omega)
  rw [hx] at hnear
  convert hnear using 1
  rcases lt_or_ge n 0 with hneg | hneg
  · rw [decide_eq_true hneg, if_pos rfl, Nat.cast_natAbs, abs_of_neg hneg]
    push_cast
    ring
  · rw [decide_eq_false (not_lt.mpr hneg), if_neg Bool.false_ne_true, Nat.cast_natAbs,
      abs_of_nonneg hneg, one_mul]

end RunPlan.Binary64
