import RunPlan.Number.Decimal
import RunPlan.Proofs.Binary64
import RunPlan.Proofs.Numeral

/-!
# Decimal notation is read back

The scientific notation puts a point or an exponent into the shortest digits, possibly
with zeros around them. The reader takes digits, point and exponent apart again and is
left with a decimal of the same value, which `isDecimalOf_shortest` takes back to the
number.

## Key results

- `readUnsigned?_positional`, `readUnsigned?_withExponent`: both notations keep the value
- `read?_toScientific`: every finite number is read back
-/

namespace RunPlan.Binary64

open Text

/-! ## Characters -/

/-- Without an exponent a number is written with digits and a point. -/
theorem mem_positional {c : Char} {digits : Nat} {power : Int} {whole : String}
    (h : c ∈ (positional digits power whole).toList) :
    isDigit c = true ∨ c = '.' ∨ c ∈ whole.toList := by
  have hdigits (h : c ∈ Nat.toDigits 10 digits) : isDigit c = true :=
    Numeral.isDigit_of_mem_toDigits h
  have hzeros {n : Nat} (h : c ∈ List.replicate n '0') : isDigit c = true := by
    rw [List.eq_of_mem_replicate h]
    rfl
  rw [positional] at h
  split at h
  · simp only [String.toList_append, String.toList_ofList, List.mem_append] at h
    rcases h with (h | h) | h
    · exact Or.inl (hdigits h)
    · exact Or.inl (hzeros h)
    · exact Or.inr (Or.inr h)
  split at h
  · simp only [String.toList_ofList, List.mem_append, List.mem_singleton] at h
    rcases h with (h | h) | h
    · exact Or.inl (hdigits (List.mem_of_mem_take h))
    · exact Or.inr (Or.inl h)
    · exact Or.inl (hdigits (List.mem_of_mem_drop h))
  · simp only [String.toList_ofList, List.mem_append, List.mem_cons, List.not_mem_nil,
      or_false] at h
    rcases h with ((h | h) | h) | h
    · exact Or.inl (by rw [h]; rfl)
    · exact Or.inr (Or.inl h)
    · exact Or.inl (hzeros h)
    · exact Or.inl (hdigits h)

/-! ## Reading the parts of a number -/

/-- The digits at the start of a text. -/
private theorem spanDigits_append {digits rest : List Char}
    (hdigits : ∀ c ∈ digits, isDigit c = true) (hrest : ∀ c ∈ rest.head?, isDigit c = false) :
    spanDigits (digits ++ rest) = (digits, rest) := by
  rw [spanDigits, List.span_eq_takeWhile_dropWhile]
  have hstop : rest.takeWhile isDigit = [] ∧ rest.dropWhile isDigit = rest := by
    cases rest with
    | nil => exact ⟨rfl, rfl⟩
    | cons c rest => simp [hrest c rfl]
  rw [List.takeWhile_append_of_pos hdigits, List.dropWhile_append_of_pos hdigits, hstop.1,
    hstop.2, List.append_nil]

/-- A text that starts with a digit is none of the words. -/
private theorem word_ne {cs : List Char} (hhead : ∃ c ∈ cs.head?, isDigit c = true)
    {word : String} (hword : word.toList.head?.any isDigit = false) :
    String.ofList (cs.map asciiLower) ≠ word := by
  rintro rfl
  obtain ⟨c, hmem, hc⟩ := hhead
  have hlower : asciiLower c = c := by
    have hrange := Numeral.isDigit_iff.mp hc
    rw [asciiLower, if_neg]
    simp only [Bool.and_eq_true, decide_eq_true_eq, Char.le_def, UInt32.le_iff_toNat_le]
    exact fun h => absurd (Nat.le_trans h.1 hrange.2) (by decide)
  rw [String.toList_ofList, List.head?_map, Option.mem_def.mp hmem, Option.map_some, hlower,
    Option.any_some, hc] at hword
  exact Bool.noConfusion hword

/-- Digits are a number. -/
private theorem readNat?_digits {cs : List Char} (hne : cs ≠ [])
    (h : ∀ c ∈ cs, isDigit c = true) :
    Numeral.readNat? 10 cs = some (Nat.ofDigitChars 10 cs 0) := by
  rw [Numeral.readNat?, if_neg hne, Numeral.readDigits_eq_ofDigitChars h]

/-- The first of some digits followed by something. -/
private theorem head_digits {digits : List Char} (hne : digits ≠ [])
    (h : ∀ c ∈ digits, isDigit c = true) (rest : List Char) :
    ∃ c ∈ (digits ++ rest).head?, isDigit c = true := by
  obtain ⟨c, cs, rfl⟩ := List.exists_cons_of_ne_nil hne
  exact ⟨c, rfl, h c List.mem_cons_self⟩

/-- Digits with a point, and what follows them. -/
theorem readUnsigned?_point {whole part rest : List Char} (hne : whole ≠ [])
    (hwhole : ∀ c ∈ whole, isDigit c = true) (hpart : ∀ c ∈ part, isDigit c = true)
    (hrest : ∀ c ∈ rest.head?, isDigit c = false) {digits : Nat} {power : Int}
    (hdigits : Nat.ofDigitChars 10 (whole ++ part) 0 = digits)
    (hpower : readExponent? rest = some (power + part.length)) (negative : Bool) :
    readUnsigned? negative (whole ++ '.' :: (part ++ rest)) =
      some (ofDecimal negative digits power) := by
  have hhead := head_digits hne hwhole ('.' :: (part ++ rest))
  have hnumber := readNat?_digits (show whole ++ part ≠ [] by simp [hne])
    fun c hc => (List.mem_append.mp hc).elim (hwhole c) (hpart c)
  have hspan : spanDigits (whole ++ '.' :: (part ++ rest)) = (whole, '.' :: (part ++ rest)) :=
    spanDigits_append hwhole (by simp; rfl)
  rw [readUnsigned?, if_neg (not_or.mpr ⟨word_ne hhead rfl, word_ne hhead rfl⟩),
    if_neg (word_ne hhead rfl)]
  simp only [hspan, spanDigits_append hpart hrest, hnumber, hdigits, hpower,
    Int.add_sub_cancel]

/-- Digits without a point, and what follows them. -/
theorem readUnsigned?_whole {whole rest : List Char} (hne : whole ≠ [])
    (hwhole : ∀ c ∈ whole, isDigit c = true) (hrest : ∀ c ∈ rest.head?, isDigit c = false)
    (hpoint : rest.head? ≠ some '.') {digits : Nat} {power : Int}
    (hdigits : Nat.ofDigitChars 10 whole 0 = digits)
    (hpower : readExponent? rest = some power) (negative : Bool) :
    readUnsigned? negative (whole ++ rest) = some (ofDecimal negative digits power) := by
  have hhead := head_digits hne hwhole rest
  have hnumber := readNat?_digits hne hwhole
  rw [readUnsigned?, if_neg (not_or.mpr ⟨word_ne hhead rfl, word_ne hhead rfl⟩),
    if_neg (word_ne hhead rfl)]
  cases rest with
  | nil =>
    have hspan := spanDigits_append hwhole hrest
    rw [List.append_nil] at hspan
    simp [hspan, hnumber, hdigits, hpower]
  | cons c rest =>
    have hc : c ≠ '.' := by simpa using hpoint
    simp [spanDigits_append hwhole hrest, hc, hnumber, hdigits, hpower]

/-- An exponent is read back. -/
theorem readExponent?_ofInt (n : Int) :
    readExponent? ('e' :: (Numeral.ofInt n).toList) = some n := by
  have hread := Numeral.readNat?_toDigits n.natAbs
  rw [Numeral.ofInt]
  split
  · have htext : ("-" ++ Numeral.ofNat n.natAbs).toList = '-' :: Nat.toDigits 10 n.natAbs := by
      simp [Numeral.ofNat]
    have hvalue : -((n.natAbs : Nat) : Int) = n := by omega
    rw [htext, readExponent?, if_pos (Or.inl rfl), hread]
    exact congrArg some hvalue
  · have hvalue : Int.ofNat n.natAbs = n := by
      rw [Int.ofNat_eq_natCast]
      omega
    rw [Numeral.ofNat, String.toList_ofList, readExponent?]
    · rw [if_pos (Or.inl rfl), hread, Option.map_some, hvalue]
    · exact fun digits h => Numeral.head_toDigits_ne (by decide) _ _ h
    · exact fun digits h => Numeral.head_toDigits_ne (by decide) _ _ h

/-! ## Notations -/

/-- The digits of a number in front of zeros. -/
private theorem ofDigitChars_zeros_append (n digits : Nat) :
    Nat.ofDigitChars 10 (List.replicate n '0' ++ Nat.toDigits 10 digits) 0 = digits := by
  rw [Nat.ofDigitChars_append, Nat.ofDigitChars_replicate_zero, Nat.mul_zero,
    Nat.ofDigitChars_ten_toDigits]

/-- Zeros are digits. -/
private theorem isDigit_of_mem_zeros {n : Nat} {c : Char} (h : c ∈ List.replicate n '0') :
    isDigit c = true := by
  rw [List.eq_of_mem_replicate h]
  rfl

/-- The notation without an exponent keeps the value. -/
theorem readUnsigned?_positional {digits : Nat} (hdigits : 0 < digits) (power : Int)
    (negative : Bool) :
    readUnsigned? negative (positional digits power ".0").toList =
      some (ofDecimal negative digits power) := by
  have hall : ∀ c ∈ Nat.toDigits 10 digits, isDigit c = true :=
    fun _ => Numeral.isDigit_of_mem_toDigits
  have hend : ∀ c ∈ ([] : List Char).head?, isDigit c = false := by simp
  have hvalue := Nat.ofDigitChars_ten_toDigits (n := digits)
  rw [positional]
  split
  · rename_i hpower
    -- the zeros up to the point and the one after it are all digits
    obtain ⟨n, rfl⟩ := Int.eq_ofNat_of_zero_le hpower
    have hscaled : Nat.ofDigitChars 10 (Nat.toDigits 10 (digits * 10 ^ n) ++ ['0']) 0 =
        digits * 10 ^ (n + 1) := by
      rw [toDigits_mul_pow hdigits, List.append_assoc, ← List.replicate_succ',
        ← toDigits_mul_pow hdigits, Nat.ofDigitChars_ten_toDigits]
    have hpoint : readExponent? [] = some ((n : Int) - (n + 1 : Nat) + ['0'].length) := by
      simp [readExponent?]
    have hread := readUnsigned?_point (Numeral.toDigits_ne_nil _)
      (fun _ => Numeral.isDigit_of_mem_toDigits) (List.forall_mem_singleton.mpr rfl) hend
      hscaled hpoint negative
    rw [ofDecimal_mul_pow hdigits, toDigits_mul_pow hdigits] at hread
    simpa using hread
  split
  · rename_i hpower hpoint
    obtain ⟨k, hk⟩ := Int.eq_ofNat_of_zero_le hpoint.le
    have hne : (Nat.toDigits 10 digits).take k ≠ [] := by
      rw [Ne, List.take_eq_nil_iff]
      exact not_or.mpr ⟨by omega, Numeral.toDigits_ne_nil _⟩
    have hlength : power + ((Nat.toDigits 10 digits).drop k).length = 0 := by
      rw [List.length_drop]
      omega
    have hread := readUnsigned?_point hne (fun c hc => hall c (List.mem_of_mem_take hc))
      (fun c hc => hall c (List.mem_of_mem_drop hc)) hend
      (by rw [List.take_append_drop, hvalue]) (by rw [hlength]; rfl) negative
    simpa [hk] using hread
  · rename_i hpower hpoint
    obtain ⟨k, hk⟩ := Int.eq_ofNat_of_zero_le (Int.neg_nonneg.mpr (Int.not_lt.mp hpoint))
    have hpart : ∀ c ∈ List.replicate k '0' ++ Nat.toDigits 10 digits, isDigit c = true :=
      fun c hc => (List.mem_append.mp hc).elim isDigit_of_mem_zeros (hall c)
    have hlength : power + (List.replicate k '0' ++ Nat.toDigits 10 digits).length = 0 := by
      rw [List.length_append, List.length_replicate]
      omega
    have hread := readUnsigned?_point (show ['0'] ≠ [] by simp)
      (List.forall_mem_singleton.mpr rfl) hpart hend (ofDigitChars_zeros_append (k + 1) digits) (by rw [hlength]; rfl) negative
    simpa [hk] using hread

/-- The notation with an exponent keeps the value. -/
theorem readUnsigned?_withExponent (digits : Nat) (power : Int) (negative : Bool) :
    readUnsigned? negative (withExponent digits power).toList =
      some (ofDecimal negative digits power) := by
  have hall : ∀ c ∈ Nat.toDigits 10 digits, isDigit c = true :=
    fun _ => Numeral.isDigit_of_mem_toDigits
  have hvalue := Nat.ofDigitChars_ten_toDigits (n := digits)
  rw [withExponent]
  split
  · exact absurd ‹_› (Numeral.toDigits_ne_nil _)
  · rename_i d hd
    rw [hd] at hall hvalue
    have hread := readUnsigned?_whole (by simp) hall (by simp; rfl) (by simp) hvalue
      (readExponent?_ofInt power) negative
    simpa using hread
  · rename_i d ds hne hd
    rw [hd] at hall hvalue
    have hread := readUnsigned?_point (show [d] ≠ [] by simp)
      (fun c hc => hall c (by simp_all)) (fun c hc => hall c (List.mem_cons_of_mem _ hc))
      (by simp; rfl) hvalue (readExponent?_ofInt (power + ds.length)) negative
    simpa using hread

/-! ## Texts of numbers -/

/-- What a number looks like after its sign: digits, with a point or an exponent among
    them. -/
structure IsUnsignedText (cs : List Char) : Prop where
  head : ∃ c ∈ cs.head?, isDigit c = true
  mem : ∀ c ∈ cs, isDigit c = true ∨ c = '.' ∨ c = 'e' ∨ c = '-'
  mark : '.' ∈ cs ∨ 'e' ∈ cs

/-- The looks of a number without an exponent. -/
private theorem isUnsignedText_positional (digits : Nat) (power : Int) :
    IsUnsignedText (positional digits power ".0").toList := by
  have hdigits : ∀ c ∈ Nat.toDigits 10 digits, isDigit c = true :=
    fun _ => Numeral.isDigit_of_mem_toDigits
  have hhead := head_digits (Numeral.toDigits_ne_nil digits) hdigits
  refine ⟨?_, fun c hc => ?_, Or.inl ?_⟩
  · rw [positional]
    split
    · simpa using hhead (List.replicate power.toNat '0' ++ ".0".toList)
    split
    · rename_i hpoint
      have hne : (Nat.toDigits 10 digits).take
          ((Nat.toDigits 10 digits).length + power).toNat ≠ [] := by
        rw [Ne, List.take_eq_nil_iff]
        exact not_or.mpr ⟨by omega, Numeral.toDigits_ne_nil _⟩
      have hfirst := head_digits hne (fun c hc => hdigits c (List.mem_of_mem_take hc))
      simpa only [String.toList_ofList, List.append_assoc] using hfirst _
    · exact ⟨'0', by simp, rfl⟩
  · rcases mem_positional hc with h | h | h
    · exact Or.inl h
    · exact Or.inr (Or.inl h)
    · obtain rfl | rfl : c = '.' ∨ c = '0' := by simpa using h
      · exact Or.inr (Or.inl rfl)
      · exact Or.inl rfl
  · rw [positional]
    split
    · simp
    split <;> simp

/-- The looks of a number with an exponent. -/
private theorem isUnsignedText_withExponent (digits : Nat) (power : Int) :
    IsUnsignedText (withExponent digits power).toList := by
  -- a single digit has no point, but the exponent is always there
  have hdigits : ∀ c ∈ Nat.toDigits 10 digits, isDigit c = true :=
    fun _ => Numeral.isDigit_of_mem_toDigits
  have hexponent {n : Int} {c : Char} (h : c ∈ (Numeral.ofInt n).toList) :
      isDigit c = true ∨ c = '.' ∨ c = 'e' ∨ c = '-' :=
    (Numeral.mem_ofInt h).imp_right fun h => Or.inr (Or.inr h)
  rw [withExponent]
  split
  · exact absurd ‹_› (Numeral.toDigits_ne_nil _)
  · rename_i d hd
    rw [hd] at hdigits
    have hdigit := hdigits d List.mem_cons_self
    refine ⟨⟨d, by simp, hdigit⟩, fun c hc => ?_, Or.inr (by simp)⟩
    simp only [String.toList_append, String.toList_ofList, List.mem_append, List.mem_cons,
      List.not_mem_nil, or_false] at hc
    rcases hc with (rfl | rfl) | hc
    · exact Or.inl hdigit
    · exact Or.inr (Or.inr (Or.inl rfl))
    · exact hexponent hc
  · rename_i d ds _ hd
    rw [hd] at hdigits
    refine ⟨⟨d, by simp, hdigits d List.mem_cons_self⟩, fun c hc => ?_, Or.inl (by simp)⟩
    simp only [String.toList_append, String.toList_ofList, List.mem_append, List.mem_cons,
      List.not_mem_nil, or_false] at hc
    rcases hc with ((rfl | rfl | hc) | rfl) | hc
    · exact Or.inl (hdigits c List.mem_cons_self)
    · exact Or.inr (Or.inl rfl)
    · exact Or.inl (hdigits c (List.mem_cons_of_mem _ hc))
    · exact Or.inr (Or.inr (Or.inl rfl))
    · exact hexponent hc

/-- The text of a finite number: a sign, and what is read as the number. -/
theorem toScientific_eq {x : Binary64} (hfinite : x.isFinite = true) :
    ∃ cs, x.toScientific.toList = x.signText.toList ++ cs ∧ IsUnsignedText cs ∧
      readUnsigned? x.isNegative cs = some x := by
  rw [toScientific]
  split
  · rename_i hzero
    have hpack : pack x.isNegative 0 = x := by
      have hfields := pack_fields x
      have hbits : x.biasedExponent * 2 ^ 52 + x.fraction = 0 := by
        rw [isZero, beq_iff_eq] at hzero
        rw [biasedExponent, fraction]
        omega
      rwa [hbits] at hfields
    have hmem : ∀ c ∈ ['0', '.', '0'], isDigit c = true ∨ c = '.' ∨ c = 'e' ∨ c = '-' := by
      simp [isDigit]
    refine ⟨['0', '.', '0'], by rw [String.toList_append]; rfl,
      ⟨⟨'0', rfl, rfl⟩, hmem, by simp⟩, ?_⟩
    rw [← hpack]
    cases x.isNegative <;> rfl
  · rename_i hzero
    have hdecimal := isDecimalOf_shortest hfinite (by simpa using hzero) .even
    have hpos := hdecimal.digits_pos (by simpa using hzero)
    rw [IsDecimalOf] at hdecimal
    dsimp only
    split
    · exact ⟨_, by rw [String.toList_append], isUnsignedText_positional _ _,
        by rw [readUnsigned?_positional hpos, hdecimal]⟩
    · exact ⟨_, by rw [String.toList_append], isUnsignedText_withExponent _ _,
        by rw [readUnsigned?_withExponent, hdecimal]⟩

/-- Every finite number is read back. -/
theorem read?_toScientific {x : Binary64} (hfinite : x.isFinite = true) :
    read? x.toScientific.toList = some x := by
  obtain ⟨cs, htext, hlooks, hread⟩ := toScientific_eq hfinite
  rw [htext, signText]
  cases hsign : x.isNegative with
  | true =>
    rw [hsign] at hread
    exact hread
  | false =>
    rw [hsign] at hread
    obtain ⟨c, hc, hdigit⟩ := hlooks.head
    rw [if_neg (by simp), String.toList_empty, List.nil_append, read?]
    · exact hread
    · rintro rest rfl
      obtain rfl : '-' = c := by simpa using hc
      exact Bool.noConfusion hdigit
    · rintro rest rfl
      obtain rfl : '+' = c := by simpa using hc
      exact Bool.noConfusion hdigit

end RunPlan.Binary64
