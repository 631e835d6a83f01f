import RunPlan.Number.Numeral
import Mathlib.Data.List.Basic

/-!
# Numerals are read back

`Numeral.ofNat` writes decimal digits and nothing else, and `readNat?` makes the same
number of them. It reads more than what is written: zeros in front do not count, nor does
the plus sign of `readUnsigned?`. `spelled` is the form of all texts that are read as a
number.

## Key results

- `isDigit_of_mem_ofNat`: the characters of a numeral
- `readNat?_toDigits`: a written numeral is read back
- `readUnsigned?_eq_some_iff`: what is read is a spelling of the number, within the range
-/

namespace RunPlan.Numeral

open Text

/-! ## Digits -/

/-- What a digit is in terms of its code. -/
theorem isDigit_iff {c : Char} : isDigit c = true ↔ 48 ≤ c.toNat ∧ c.toNat ≤ 57 := by
  simp only [isDigit, Bool.and_eq_true, decide_eq_true_eq, Char.le_def, UInt32.le_iff_toNat_le]
  rfl

/-- The characters of a decimal are digits. -/
theorem isDigit_of_mem_toDigits {n : Nat} {c : Char} (h : c ∈ Nat.toDigits 10 n) :
    isDigit c = true := by
  have hdigit := Nat.isDigit_of_mem_toDigits (by decide) (by decide) h
  rw [isDigit_iff]
  simpa [Char.isDigit, UInt32.le_iff_toNat_le] using hdigit

/-- The characters of a numeral are digits. -/
theorem isDigit_of_mem_ofNat {n : Nat} {c : Char} (h : c ∈ (ofNat n).toList) :
    isDigit c = true := by
  rw [ofNat, String.toList_ofList] at h
  exact isDigit_of_mem_toDigits h

/-- A number that is not negative has no sign. -/
theorem ofInt_natCast (n : Nat) : ofInt n = ofNat n := by
  rw [ofInt, if_neg (by omega), Int.natAbs_natCast]

/-- The characters of an integer are digits and perhaps a sign. -/
theorem mem_ofInt {n : Int} {c : Char} (h : c ∈ (ofInt n).toList) :
    isDigit c = true ∨ c = '-' := by
  rw [ofInt] at h
  split at h
  · rw [String.toList_append, List.mem_append] at h
    rcases h with h | h
    · exact Or.inr (by simpa using h)
    · exact Or.inl (isDigit_of_mem_ofNat h)
  · exact Or.inl (isDigit_of_mem_ofNat h)

/-- A numeral is not empty. -/
theorem toDigits_ne_nil (n : Nat) : Nat.toDigits 10 n ≠ [] :=
  Nat.toDigits_ne_nil

/-- A decimal other than zero does not start with a zero. -/
theorem head_toDigits_ne_zero {n : Nat} (hn : 0 < n) : (Nat.toDigits 10 n).head? ≠ some '0' := by
  induction n using Nat.strongRecOn with
  | ind n ih =>
    rcases Nat.lt_or_ge n 10 with hlt | hge
    · have hall : ∀ m < 10, 0 < m → [Nat.digitChar m].head? ≠ some '0' := by decide
      rw [Nat.toDigits_of_lt_base hlt]
      exact hall n hlt hn
    · rw [Nat.toDigits_of_base_le (by decide) hge,
        List.head?_append_of_ne_nil _ (toDigits_ne_nil _)]
      exact ih (n / 10) (by omega) (by omega)

/-! ## Reading back -/

/-- The value of a decimal digit. -/
theorem digitValue_of_isDigit {c : Char} (h : isDigit c = true) :
    digitValue c = some (c.toNat - 48) := by
  have hrange : ('0' ≤ c && c ≤ '9') = true := h
  rw [digitValue, if_pos hrange]

/-- Decimal digits are read as the number they make. -/
theorem readDigits_eq_ofDigitChars {cs : List Char} (h : ∀ c ∈ cs, isDigit c = true)
    (value : Nat) : readDigits 10 value cs = some (Nat.ofDigitChars 10 cs value) := by
  induction cs generalizing value with
  | nil => simp [readDigits]
  | cons c cs ih =>
    have hc := h c List.mem_cons_self
    have hlt : c.toNat - 48 < 10 := by
      have := isDigit_iff.mp hc
      omega
    simp only [readDigits, digitValue_of_isDigit hc, if_pos hlt]
    rw [ih fun d hd => h d (List.mem_cons_of_mem _ hd), Nat.ofDigitChars_cons,
      Nat.mul_comm value]
    rfl

/-- A written numeral is read back. -/
theorem readNat?_toDigits (n : Nat) : readNat? 10 (Nat.toDigits 10 n) = some n := by
  rw [readNat?, if_neg (toDigits_ne_nil n),
    readDigits_eq_ofDigitChars fun _ => isDigit_of_mem_toDigits,
    Nat.ofDigitChars_ten_toDigits]

/-- A character with a value below ten is a digit. -/
theorem isDigit_of_digitValue {c : Char} {d : Nat} (h : digitValue c = some d) (hd : d < 10) :
    isDigit c = true := by
  unfold digitValue at h
  split at h
  · assumption
  split at h
  · rename_i hletter
    simp only [Bool.and_eq_true, decide_eq_true_eq, Char.le_def, UInt32.le_iff_toNat_le]
      at hletter
    have hcode : 97 ≤ c.toNat := hletter.1
    have hvalue := Option.some.inj h
    omega
  split at h
  · rename_i hletter
    simp only [Bool.and_eq_true, decide_eq_true_eq, Char.le_def, UInt32.le_iff_toNat_le]
      at hletter
    have hcode : 65 ≤ c.toNat := hletter.1
    have hvalue := Option.some.inj h
    omega
  · cases h

/-- The digit that a character is. -/
theorem digitChar_of_digitValue {c : Char} {d : Nat} (h : digitValue c = some d) (hd : d < 10) :
    Nat.digitChar d = c := by
  have hc := isDigit_of_digitValue h hd
  obtain ⟨hlow, hhigh⟩ := isDigit_iff.mp hc
  rw [digitValue_of_isDigit hc] at h
  have hcode : c = Char.ofNat (d + 48) := by
    rw [← Option.some.inj h, Nat.sub_add_cancel hlow, Char.ofNat_toNat]
  have hall : ∀ d < 10, Nat.digitChar d = Char.ofNat (d + 48) := by decide
  rw [hcode, hall d hd]

/-- A digit after a positive number makes the next numeral. -/
theorem toDigits_append_digit {value d : Nat} (hvalue : 0 < value) (hd : d < 10) :
    Nat.toDigits 10 (value * 10 + d) = Nat.toDigits 10 value ++ [Nat.digitChar d] := by
  rw [Nat.toDigits_of_base_le (by decide) (by omega)]
  congr 3 <;> omega

/-- Digits after a positive number are those of its numeral. -/
theorem toDigits_append_of_readDigits {cs : List Char} {value n : Nat} (hvalue : 0 < value)
    (h : readDigits 10 value cs = some n) : Nat.toDigits 10 value ++ cs = Nat.toDigits 10 n := by
  induction cs generalizing value with
  | nil => rw [List.append_nil, Option.some.inj h]
  | cons c cs ih =>
    rw [readDigits] at h
    split at h
    · rename_i d hd
      split at h
      · rename_i hlt
        have hnumeral := ih (by omega) h
        rwa [toDigits_append_digit hvalue hlt, digitChar_of_digitValue hd hlt,
          List.append_assoc] at hnumeral
      · cases h
    · cases h

/-- Zeros in front do not count. -/
theorem readDigits_zeros (base n : Nat) (hbase : 0 < base) (ds : List Char) :
    readDigits base 0 (List.replicate n '0' ++ ds) = readDigits base 0 ds := by
  induction n with
  | zero => rfl
  | succ n ih =>
    rw [List.replicate_succ, List.cons_append, readDigits,
      show digitValue '0' = some 0 by rfl]
    simp only [hbase, if_true, Nat.zero_mul, Nat.add_zero, ih]

/-- A decimal is a numeral with any number of zeros in front. -/
theorem readNat?_eq_some_iff {cs : List Char} {n : Nat} :
    readNat? 10 cs = some n ↔ ∃ zeros, cs = List.replicate zeros '0' ++ Nat.toDigits 10 n := by
  constructor
  · intro h
    induction cs with
    | nil => cases h
    | cons c cs ih =>
      rw [readNat?, if_neg (List.cons_ne_nil _ _), readDigits] at h
      split at h
      · rename_i d hd
        split at h
        · rename_i hlt
          rw [Nat.zero_mul, Nat.zero_add] at h
          have hc : c = Nat.digitChar d := (digitChar_of_digitValue hd hlt).symm
          rcases Nat.eq_zero_or_pos d with hzero | hpos
          · -- a zero counts only where it is the last digit
            by_cases hlast : cs = []
            · rw [hlast, hzero] at h
              refine ⟨0, ?_⟩
              rw [hc, hlast, hzero, ← Option.some.inj h]
              rfl
            · rw [hzero] at h
              obtain ⟨zeros, hzeros⟩ := ih (by rw [readNat?, if_neg hlast, h])
              refine ⟨zeros + 1, ?_⟩
              rw [hc, hzero, hzeros]
              rfl
          · refine ⟨0, ?_⟩
            rw [← toDigits_append_of_readDigits hpos h, Nat.toDigits_of_lt_base hlt, hc]
            rfl
        · cases h
      · cases h
  · rintro ⟨zeros, rfl⟩
    have hne : List.replicate zeros '0' ++ Nat.toDigits 10 n ≠ [] := by
      simp [toDigits_ne_nil n]
    have hread := readNat?_toDigits n
    rw [readNat?, if_neg (toDigits_ne_nil n)] at hread
    rw [readNat?, if_neg hne, readDigits_zeros 10 zeros (by decide), hread]

/-- Different numbers have different numerals. -/
theorem ofNat_injective : Function.Injective ofNat := by
  intro m n h
  have hread := congrArg (fun text => readNat? 10 text.toList) h
  simp only [ofNat, String.toList_ofList, readNat?_toDigits] at hread
  exact Option.some.inj hread

/-- A numeral does not start with a character that is no digit. -/
theorem head_toDigits_ne {c : Char} (hc : isDigit c = false) (n : Nat) (cs : List Char) :
    Nat.toDigits 10 n ≠ c :: cs := by
  intro h
  have hdigit : isDigit c = true := isDigit_of_mem_toDigits (h ▸ List.mem_cons_self)
  rw [hc] at hdigit
  exact Bool.noConfusion hdigit

/-! ## Spellings of a number -/

/-- A numeral with a plus sign or without, and zeros in front. -/
def spelled (plus : Bool) (zeros n : Nat) : List Char :=
  (if plus then ['+'] else []) ++ (List.replicate zeros '0' ++ Nat.toDigits 10 n)

/-- Without a plus sign there are only digits. -/
theorem isDigit_of_mem_spelled {zeros n : Nat} {c : Char} (h : c ∈ spelled false zeros n) :
    isDigit c = true := by
  rcases List.mem_append.mp h with hplus | hdigits
  · exact absurd hplus List.not_mem_nil
  · rcases List.mem_append.mp hdigits with hzero | hdigit
    · rw [List.eq_of_mem_replicate hzero]
      decide
    · exact isDigit_of_mem_toDigits hdigit

/-- A number of some range is read from its spellings. -/
theorem readUnsigned?_eq_some_iff {largest n : Nat} {cs : List Char} :
    readUnsigned? 10 largest cs = some n ↔
      n ≤ largest ∧ ∃ plus zeros, cs = spelled plus zeros n := by
  constructor
  · intro h
    unfold readUnsigned? at h
    extract_lets digits at h
    have hdigits : cs = '+' :: digits ∨ cs = digits := by
      dsimp only [digits]
      split
      · exact .inl rfl
      · exact .inr rfl
    split at h
    · rename_i m hread
      split at h
      · obtain rfl : m = n := Option.some.inj h
        obtain ⟨zeros, hzeros⟩ := readNat?_eq_some_iff.mp hread
        refine ⟨by assumption, ?_⟩
        rcases hdigits with hcs | hcs
        · exact ⟨true, zeros, by rw [hcs, hzeros]; rfl⟩
        · exact ⟨false, zeros, by rw [hcs, hzeros]; rfl⟩
      · cases h
    · cases h
  · rintro ⟨hle, plus, zeros, rfl⟩
    have hread : readNat? 10 (List.replicate zeros '0' ++ Nat.toDigits 10 n) = some n :=
      readNat?_eq_some_iff.mpr ⟨zeros, rfl⟩
    cases plus with
    | true =>
      unfold readUnsigned?
      simp only [spelled, if_true, List.cons_append, List.nil_append, hread, if_pos hle]
    | false =>
      unfold readUnsigned?
      split
      · rename_i rest hrest
        have hplus : '+' ∈ spelled false zeros n := hrest ▸ List.mem_cons_self
        exact absurd (isDigit_of_mem_spelled hplus) (by decide)
      · simp only [spelled, Bool.false_eq_true, if_false, List.nil_append, hread, if_pos hle]

/-- A number is spelled in different ways by different signs and numbers of zeros. -/
theorem spelled_inj {plus plus' : Bool} {zeros zeros' n : Nat}
    (h : spelled plus zeros n = spelled plus' zeros' n) : plus = plus' ∧ zeros = zeros' := by
  have hsign {zeros zeros' : Nat} : spelled true zeros n ≠ spelled false zeros' n := by
    intro heq
    have hplus : '+' ∈ spelled false zeros' n := heq ▸ List.mem_cons_self
    exact absurd (isDigit_of_mem_spelled hplus) (by decide)
  have hzeros {plus : Bool} (heq : spelled plus zeros n = spelled plus zeros' n) :
      zeros = zeros' := by
    have hlength := congrArg List.length heq
    simp only [spelled, List.length_append, List.length_replicate] at hlength
    omega
  cases plus <;> cases plus'
  · exact ⟨rfl, hzeros h⟩
  · exact absurd h.symm hsign
  · exact absurd h hsign
  · exact ⟨rfl, hzeros h⟩

/-- A number in one range is the same in a larger one. -/
theorem readUnsigned?_mono {largest larger n : Nat} (hle : largest ≤ larger) {cs : List Char}
    (h : readUnsigned? 10 largest cs = some n) : readUnsigned? 10 larger cs = some n := by
  obtain ⟨hn, hspelled⟩ := readUnsigned?_eq_some_iff.mp h
  exact readUnsigned?_eq_some_iff.mpr ⟨Nat.le_trans hn hle, hspelled⟩

/-- A number with an optional sign is made of digits and perhaps a sign. -/
theorem mem_readUnsigned? {largest n : Nat} {cs : List Char}
    (h : readUnsigned? 10 largest cs = some n) : ∀ c ∈ cs, isDigit c = true ∨ c = '+' := by
  obtain ⟨-, plus, zeros, rfl⟩ := readUnsigned?_eq_some_iff.mp h
  cases plus with
  | true =>
    exact List.forall_mem_cons.mpr ⟨.inr rfl, fun c hc => .inl (isDigit_of_mem_spelled hc)⟩
  | false => exact fun c hc => .inl (isDigit_of_mem_spelled hc)

/-- A numeral in the range is read back. -/
theorem readUnsigned?_toDigits {n largest : Nat} (h : n ≤ largest) :
    readUnsigned? 10 largest (Nat.toDigits 10 n) = some n :=
  readUnsigned?_eq_some_iff.mpr ⟨h, false, 0, rfl⟩

/-! ## Hexadecimal digits -/

/-- Digits are read from left to right. -/
theorem readDigits_append (base value : Nat) (cs ds : List Char) :
    readDigits base value (cs ++ ds) =
      (readDigits base value cs).bind fun n => readDigits base n ds := by
  induction cs generalizing value with
  | nil => rfl
  | cons c cs ih =>
    rw [List.cons_append, readDigits, readDigits]
    split
    · split
      · exact ih _
      · rfl
    · rfl

/-- A hexadecimal numeral in upper case is read back. -/
theorem readDigits_upper (n : Nat) :
    readDigits 16 0 ((Nat.toDigits 16 n).map Char.toUpper) = some n := by
  have hdigit : ∀ d < 16, digitValue (Nat.digitChar d).toUpper = some d := by decide
  have hone (value d : Nat) (hd : d < 16) :
      readDigits 16 value [(Nat.digitChar d).toUpper] = some (value * 16 + d) := by
    simp only [readDigits, hdigit d hd, if_pos hd]
  induction n using Nat.strongRecOn with
  | ind n ih =>
    rcases Nat.lt_or_ge n 16 with hlt | hge
    · rw [Nat.toDigits_of_lt_base hlt, List.map_singleton, hone 0 n hlt, Nat.zero_mul,
        Nat.zero_add]
    · rw [Nat.toDigits_of_base_le (by decide) hge, List.map_append, readDigits_append,
        ih (n / 16) (by omega), Option.bind_some, List.map_singleton,
        hone _ _ (Nat.mod_lt n (by decide)), Nat.div_add_mod']

end RunPlan.Numeral
