import RunPlan.Proofs.Decimal
import RunPlan.Yaml.Writer

/-!
# What written scalars mean

Numerals, numbers, booleans and null are written without quotes, in a spelling that the
reader takes for the same value.

## Key results

- `plainValue_ofNat`: a numeral is an integer
- `plainValue_eq_none_iff`: only an integer that is too large has no value
- `readFloat?_toScientific`, `plainValue_toScientific`: a finite number is itself
-/

namespace RunPlan.Yaml

open Text

/-! ## Integers -/

/-- Digits have no prefix of another base. -/
private theorem readPrefixed?_eq_none {cs : List Char} (largest : Nat)
    (h : ∀ c ∈ cs, c ≠ 'x' ∧ c ≠ 'o' ∧ c ≠ 'b') : readPrefixed? largest cs = none := by
  rw [readPrefixed?]
  · rintro ds rfl
    exact (h 'x' (by simp)).1 rfl
  · rintro ds rfl
    exact (h 'o' (by simp)).2.1 rfl
  · rintro ds rfl
    exact (h 'b' (by simp)).2.2 rfl

/-- A digit is none of the letters and signs that have a meaning in front of digits. -/
private theorem ne_of_isDigit {c : Char} (h : isDigit c = true) :
    (c ≠ 'x' ∧ c ≠ 'o' ∧ c ≠ 'b') ∧ c ≠ '+' ∧ c ≠ '-' := by
  refine ⟨⟨?_, ?_, ?_⟩, ?_, ?_⟩ <;> rintro rfl <;> exact Bool.noConfusion h

/-- What starts with a digit has no sign. -/
private theorem startsWithSign_eq_false {cs : List Char}
    (h : ∀ c ∈ cs.head?, c ≠ '+' ∧ c ≠ '-') : startsWithSign cs = false := by
  rw [startsWithSign]
  · rintro rest rfl
    exact (h '-' rfl).2 rfl
  · rintro rest rfl
    exact (h '+' rfl).1 rfl

/-- What starts with no sign keeps its start. -/
private theorem dropSign_eq_self {cs : List Char}
    (h : ∀ c ∈ cs.head?, c ≠ '+' ∧ c ≠ '-') : dropSign cs = cs := by
  rw [dropSign]
  · rintro rest rfl
    exact (h '-' rfl).2 rfl
  · rintro rest rfl
    exact (h '+' rfl).1 rfl

/-- A decimal has no needless zero. -/
theorem hasLeadingZero_toDigits (n : Nat) : hasLeadingZero (Nat.toDigits 10 n) = false := by
  have hhead : ∀ c ∈ (Nat.toDigits 10 n).head?, c ≠ '+' ∧ c ≠ '-' := fun c hc =>
    (ne_of_isDigit (Numeral.isDigit_of_mem_toDigits (List.mem_of_mem_head? hc))).2
  rw [hasLeadingZero, dropSign_eq_self hhead]
  split
  · rename_i d ds hdigits
    rcases Nat.eq_zero_or_pos n with rfl | hn
    · simp at hdigits
    · exact absurd (by rw [hdigits]; rfl) (Numeral.head_toDigits_ne_zero hn)
  · rfl

/-- A decimal in the range is read back. -/
theorem readUnsigned?_toDigits {n largest : Nat} (h : n ≤ largest) :
    readUnsigned? largest (Nat.toDigits 10 n) = some n := by
  have hdigit : ∀ c ∈ Nat.toDigits 10 n, isDigit c = true :=
    fun _ => Numeral.isDigit_of_mem_toDigits
  have hhead : ∀ c ∈ (Nat.toDigits 10 n).head?, c ≠ '+' ∧ c ≠ '-' :=
    fun c hc => (ne_of_isDigit (hdigit c (List.mem_of_mem_head? hc))).2
  have hbase := readPrefixed?_eq_none largest fun c hc => (ne_of_isDigit (hdigit c hc)).1
  unfold readUnsigned?
  split
  · exact absurd ‹_› (Numeral.head_toDigits_ne (by decide) _ _)
  · simp [hbase, startsWithSign_eq_false hhead, hasLeadingZero_toDigits,
      Numeral.readUnsigned?_toDigits h]

/-! ## Numbers as plain scalars -/

/-- A text that starts like a number is none of the words that start otherwise. -/
private theorem ne_words {text : String}
    (h : ∃ c ∈ text.toList.head?, isDigit c = true ∨ c = '-') (words : List String)
    (hwords : ∀ word ∈ words, (word.toList.head?.any fun d => isDigit d || d == '-') = false) :
    ∀ word ∈ words, text ≠ word := by
  rintro word hmem rfl
  obtain ⟨c, hc, hstart⟩ := h
  have hother := hwords text hmem
  rw [Option.mem_def.mp hc, Option.any_some, Bool.or_eq_false_iff, beq_eq_false_iff_ne] at hother
  rcases hstart with h | h
  · rw [hother.1] at h
    exact Bool.noConfusion h
  · exact hother.2 h

/-- The plain scalars that are null or a boolean. -/
def plainWords : List String :=
  ["", "null", "Null", "NULL", "~", "true", "True", "TRUE", "false", "False", "FALSE"]

/-- A text that is neither null nor a boolean is a number or a text. -/
private theorem plainValue_of_notMem {text : String} (h : text ∉ plainWords) :
    plainValue text =
      match readInt? text.toList with
      | some n => some (.int n)
      | none =>
        if (wideInt? text.toList).isSome then none
        else if hasLeadingZero text.toList then some (.string text)
        else
          match readFloat? text.toList with
          | some x => some (.float x)
          | none => some (.string text) := by
  have hnull : ¬ (text = "" ∨ isNullText text = true) := by simp_all [plainWords, isNullText]
  have hbool : readBool? text = none := by simp_all [plainWords, readBool?]
  rw [plainValue, if_neg hnull]
  generalize readBool? text = b at hbool
  subst hbool
  rfl

/-- A text that starts like a number is neither null nor a boolean. -/
private theorem plainValue_number {text : String}
    (h : ∃ c ∈ text.toList.head?, isDigit c = true ∨ c = '-') :
    plainValue text =
      match readInt? text.toList with
      | some n => some (.int n)
      | none =>
        if (wideInt? text.toList).isSome then none
        else if hasLeadingZero text.toList then some (.string text)
        else
          match readFloat? text.toList with
          | some x => some (.float x)
          | none => some (.string text) :=
  plainValue_of_notMem fun hword => ne_words h plainWords (by decide) text hword rfl

/-- A plain scalar that is a text is its own text. -/
theorem eq_of_plainValue_eq_string {text s : String} (h : plainValue text = some (.string s)) :
    s = text := by
  unfold plainValue at h
  dsimp only at h
  split at h
  · cases h
  split at h
  · cases h
  split at h
  · cases h
  split at h
  · cases h
  split at h
  · cases h
    rfl
  split at h
  · cases h
  · cases h
    rfl

/-- A text that needs no quotes is read as itself. -/
theorem plainValue_of_isPlainText {text : String} (h : isPlainText text = true) :
    plainValue text = some (.string text) := by
  rw [isPlainText] at h
  split at h
  · rename_i s hs
    rw [hs, eq_of_plainValue_eq_string hs]
  · cases h

/-- A plain scalar is null when it is one of the spellings of null. -/
theorem plainValue_eq_null_iff (text : String) :
    plainValue text = some .null ↔ text = "" ∨ isNullText text = true := by
  constructor
  · intro h
    by_cases hnull : text = "" ∨ isNullText text = true
    · exact hnull
    · simp only [plainValue, if_neg hnull] at h
      split at h
      · cases h
      split at h
      · cases h
      split at h
      · cases h
      split at h
      · cases h
      split at h <;> cases h
  · intro hnull
    rw [plainValue, if_pos hnull]

/-- A numeral of 64 bits is an integer. -/
theorem plainValue_ofNat {n : Nat} (h : n < 2 ^ 64) :
    plainValue (Numeral.ofNat n) = some (.int n) := by
  have hread : readInt? (Numeral.ofNat n).toList = some (n : Int) := by
    rw [Numeral.ofNat, String.toList_ofList, readInt?, readUnsigned?_toDigits (by omega)]
  have hstart : ∃ c ∈ (Numeral.ofNat n).toList.head?, isDigit c = true ∨ c = '-' := by
    obtain ⟨c, cs, hcs⟩ := List.exists_cons_of_ne_nil (Numeral.toDigits_ne_nil n)
    refine ⟨c, ?_, Or.inl (Numeral.isDigit_of_mem_toDigits (hcs ▸ List.mem_cons_self))⟩
    rw [Numeral.ofNat, String.toList_ofList, hcs]
    rfl
  rw [plainValue_number hstart, hread]

/-- A negative decimal in the range is read back. -/
private theorem readNegative?_toDigits {n largest : Nat} (h : n ≤ largest) :
    readNegative? largest ('-' :: Nat.toDigits 10 n) = some (-(n : Int)) := by
  have hzero : hasLeadingZero ('-' :: Nat.toDigits 10 n) = false := by
    have hdigits := hasLeadingZero_toDigits n
    have hhead : ∀ c ∈ (Nat.toDigits 10 n).head?, c ≠ '+' ∧ c ≠ '-' := fun c hc =>
      (ne_of_isDigit (Numeral.isDigit_of_mem_toDigits (List.mem_of_mem_head? hc))).2
    rw [hasLeadingZero, dropSign_eq_self hhead] at hdigits
    exact hdigits
  have hdigit {c : Char} (hc : c ∈ Nat.toDigits 10 n) : c ≠ 'x' ∧ c ≠ 'o' ∧ c ≠ 'b' :=
    (ne_of_isDigit (Numeral.isDigit_of_mem_toDigits hc)).1
  have hread : readNegativeDigits? (Nat.toDigits 10 n) = some n := by
    rw [readNegativeDigits?]
    · exact Numeral.readNat?_toDigits n
    · intro ds hds
      exact (hdigit (c := 'x') (by simp [hds])).1 rfl
    · intro ds hds
      exact (hdigit (c := 'o') (by simp [hds])).2.1 rfl
    · intro ds hds
      exact (hdigit (c := 'b') (by simp [hds])).2.2 rfl
  simp only [readNegative?, hzero, hread, Bool.false_eq_true, if_false, if_pos h]

/-- An integer of 64 bits is an integer. -/
theorem plainValue_ofInt {n : Int} (hlow : -2 ^ 63 ≤ n) (hhigh : n < 2 ^ 64) :
    plainValue (Numeral.ofInt n) = some (.int n) := by
  rcases Int.le_total 0 n with hn | hn
  · obtain ⟨m, rfl⟩ := Int.eq_ofNat_of_zero_le hn
    rw [Numeral.ofInt_natCast]
    exact plainValue_ofNat (by omega)
  · obtain ⟨m, rfl⟩ := Int.exists_eq_neg_ofNat hn
    by_cases hm : m = 0
    · subst hm
      rfl
    have htext : Numeral.ofInt (-(m : Int)) = "-" ++ Numeral.ofNat m := by
      rw [Numeral.ofInt, if_pos (by omega), Int.natAbs_neg, Int.natAbs_natCast]
    have hchars : ("-" ++ Numeral.ofNat m).toList = '-' :: Nat.toDigits 10 m := by
      simp [Numeral.ofNat]
    have hunsigned : readUnsigned? (2 ^ 64 - 1) ('-' :: Nat.toDigits 10 m) = none := rfl
    have hread : readInt? ('-' :: Nat.toDigits 10 m) = some (-(m : Int)) := by
      rw [readInt?, hunsigned]
      exact readNegative?_toDigits (by omega)
    rw [htext, plainValue_number, hchars, hread]
    exact ⟨'-', by rw [hchars]; rfl, Or.inr rfl⟩

/-- A text that is read as an unsigned integer is an integer. -/
theorem plainValue_of_readUnsigned? {text : String} {n : Nat}
    (h : readUnsigned? (2 ^ 64 - 1) text.toList = some n) : plainValue text = some (.int n) := by
  have hword : text ∉ plainWords := by
    intro hword
    have hnone : ∀ word ∈ plainWords, readUnsigned? (2 ^ 64 - 1) word.toList = none := by decide
    rw [hnone text hword] at h
    cases h
  rw [plainValue_of_notMem hword, readInt?, h]

/-- A text that needs no quotes is not null. -/
theorem not_null_of_isPlainText {text : String} (h : isPlainText text = true) :
    ¬ (text = "" ∨ isNullText text = true) := by
  rw [← plainValue_eq_null_iff, plainValue_of_isPlainText h]
  exact nofun

/-- A text that needs no quotes is not read as an integer. -/
theorem readUnsigned?_of_isPlainText {text : String} (h : isPlainText text = true) :
    readUnsigned? (2 ^ 64 - 1) text.toList = none := by
  rw [Option.eq_none_iff_forall_ne_some]
  intro n hn
  have hint := plainValue_of_readUnsigned? hn
  rw [plainValue_of_isPlainText h] at hint
  cases hint

/-- A text that needs no quotes is not read as a floating-point number: it is not one of those
    that start with a needless zero. -/
theorem readFloat?_of_isPlainText {text : String} (h : isPlainText text = true) :
    readFloat? text.toList = none := by
  have hvalue := plainValue_of_isPlainText h
  have hzero : hasLeadingZero text.toList = false := by
    rw [isPlainText, hvalue] at h
    simpa using h
  have hword : text ∉ plainWords := by
    intro hword
    have hnot : ∀ word ∈ plainWords, isPlainText word = false := by decide
    rw [hnot text hword] at h
    cases h
  rw [plainValue_of_notMem hword, hzero] at hvalue
  split at hvalue
  · cases hvalue
  split at hvalue
  · cases hvalue
  rw [if_neg Bool.false_ne_true] at hvalue
  split at hvalue
  · cases hvalue
  · assumption

/-! ## Integers without a value -/

/-- The plain scalars without a value are the integers that no value can hold. -/
theorem plainValue_eq_none_iff (text : String) :
    plainValue text = none ↔ (wideInt? text.toList).isSome = true := by
  constructor
  · intro h
    unfold plainValue at h
    dsimp only at h
    split at h
    · cases h
    split at h
    · cases h
    split at h
    · cases h
    split at h
    · assumption
    split at h
    · cases h
    split at h <;> cases h
  · intro h
    have hword : text ∉ plainWords := by
      intro hword
      have hnone : ∀ word ∈ plainWords, (wideInt? word.toList).isSome = false := by decide
      rw [hnone text hword] at h
      cases h
    have hread : readInt? text.toList = none := by
      rw [wideInt?] at h
      split at h
      · cases h
      · rename_i hint
        simpa using hint
    rw [plainValue_of_notMem hword, hread]
    simp only [h, if_true]

/-- A letter is no digit. -/
private theorem isDigit_eq_false_of_isLetter {c : Char} (h : isLetter c = true) :
    isDigit c = false := by
  simp only [isLetter, Bool.or_eq_true, Bool.and_eq_true, decide_eq_true_eq, Char.le_def,
    UInt32.le_iff_toNat_le] at h
  rw [Bool.eq_false_iff, ne_eq, Numeral.isDigit_iff]
  rcases h with ⟨h, -⟩ | ⟨h, -⟩
  · have hcode : 97 ≤ c.toNat := h
    omega
  · have hcode : 65 ≤ c.toNat := h
    omega

/-- What starts with a letter is no integer. -/
theorem wideInt?_eq_none_of_isLetter {c : Char} (hc : isLetter c = true) (cs : List Char) :
    wideInt? (c :: cs) = none := by
  have hne (d : Char) (hd : isLetter d = false) : c ≠ d := by
    rintro rfl
    rw [hc] at hd
    cases hd
  have hunsigned (largest : Nat) : readUnsigned? largest (c :: cs) = none := by
    have hbase : readPrefixed? largest (c :: cs) = none := by
      rw [readPrefixed?]
      all_goals
        intro ds heq
        exact hne '0' rfl (List.cons_eq_cons.mp heq).1
    have hdecimal : Numeral.readUnsigned? 10 largest (c :: cs) = none := by
      cases hread : Numeral.readUnsigned? 10 largest (c :: cs) with
      | none => rfl
      | some n =>
        rcases Numeral.mem_readUnsigned? hread c List.mem_cons_self with hdigit | hplus
        · rw [isDigit_eq_false_of_isLetter hc] at hdigit
          cases hdigit
        · exact absurd hplus (hne '+' rfl)
    rw [readUnsigned?]
    · simp [hbase, hdecimal]
    · exact fun rest heq => hne '+' rfl (List.cons_eq_cons.mp heq).1
  have hnegative (largest : Nat) : readNegative? largest (c :: cs) = none := by
    rw [readNegative?]
    exact fun rest heq => hne '-' rfl (List.cons_eq_cons.mp heq).1
  rw [wideInt?, hunsigned, hnegative]
  split <;> rfl

/-- A text with a slash that starts with a letter has a value, and is not null. -/
theorem exists_plainValue_of_slash {text : String}
    (hletter : text.toList.head?.any isLetter = true) (hslash : '/' ∈ text.toList) :
    ∃ v, plainValue text = some v ∧ v ≠ .null := by
  have hwide : wideInt? text.toList = none := by
    cases htext : text.toList with
    | nil => rfl
    | cons c cs =>
      rw [htext] at hletter
      exact wideInt?_eq_none_of_isLetter hletter cs
  cases hvalue : plainValue text with
  | none =>
    rw [plainValue_eq_none_iff, hwide] at hvalue
    cases hvalue
  | some v =>
    refine ⟨v, rfl, ?_⟩
    rintro rfl
    have hword : text ∈ ["", "null", "Null", "NULL", "~"] := by
      simpa [isNullText, or_assoc] using (plainValue_eq_null_iff text).mp hvalue
    have hnone : ∀ word ∈ ["", "null", "Null", "NULL", "~"], '/' ∉ word.toList := by decide
    exact hnone text hword hslash

/-- A text with a character that is no decimal digit is no decimal. -/
theorem readDigits_eq_none {cs : List Char} {c : Char} (hc : c ∈ cs)
    (h : ∀ d ∈ Numeral.digitValue c, 10 ≤ d) (value : Nat) :
    Numeral.readDigits 10 value cs = none := by
  induction cs generalizing value with
  | nil => simp at hc
  | cons first cs ih =>
    rw [Numeral.readDigits]
    rcases List.mem_cons.mp hc with rfl | hc
    · split
      · rename_i d hd
        rw [if_neg (by have := h d hd; omega)]
      · rfl
    · split
      · split
        · exact ih hc _
        · rfl
      · rfl

open Binary64

/-- The text of a number with a point or an exponent is no integer. -/
private theorem readNat?_unsignedText {cs : List Char} (h : IsUnsignedText cs) :
    Numeral.readNat? 10 cs = none := by
  rw [Numeral.readNat?]
  split
  · rfl
  rcases h.mark with hmark | hmark
  · exact readDigits_eq_none hmark (by decide) 0
  · exact readDigits_eq_none hmark (by decide) 0

/-- The characters of a number other than its digits. -/
private theorem ne_of_mem_unsignedText {cs : List Char} (h : IsUnsignedText cs) {c : Char}
    (hc : c ∈ cs) : c ≠ 'x' ∧ c ≠ 'o' ∧ c ≠ 'b' := by
  rcases h.mem c hc with hdigit | rfl | rfl | rfl
  · exact (ne_of_isDigit hdigit).1
  all_goals decide

/-- The first character of a number is no sign. -/
private theorem head_unsignedText {cs : List Char} (h : IsUnsignedText cs) :
    ∀ c ∈ cs.head?, c ≠ '+' ∧ c ≠ '-' := by
  obtain ⟨c, hc, hdigit⟩ := h.head
  intro d hd
  obtain rfl : c = d := Option.mem_unique hc hd
  exact (ne_of_isDigit hdigit).2

/-- The text of a number: what is unsigned, with or without a minus sign. -/
def IsFloatText (cs : List Char) : Prop :=
  IsUnsignedText cs ∨ ∃ body, cs = '-' :: body ∧ IsUnsignedText body

/-- A number starts with a digit or a minus sign. -/
theorem IsFloatText.start {cs : List Char} (h : IsFloatText cs) :
    ∃ c ∈ cs.head?, isDigit c = true ∨ c = '-' := by
  rcases h with h | ⟨body, rfl, h⟩
  · obtain ⟨c, hc, hdigit⟩ := h.head
    exact ⟨c, hc, Or.inl hdigit⟩
  · exact ⟨'-', rfl, Or.inr rfl⟩

/-- The text of a finite number. -/
theorem isFloatText_toScientific {x : Binary64} (hfinite : x.isFinite = true) :
    IsFloatText x.toScientific.toList := by
  obtain ⟨cs, htext, hlooks, -⟩ := toScientific_eq hfinite
  rw [htext, signText]
  split
  · exact Or.inr ⟨cs, rfl, hlooks⟩
  · exact Or.inl hlooks

/-- A number with a point or an exponent has no needless zero. -/
private theorem hasLeadingZero_floatText {cs : List Char} (h : IsFloatText cs) :
    hasLeadingZero cs = false := by
  have hunsigned {body : List Char} (h : IsUnsignedText body) (d : Char) (ds : List Char)
      (hbody : body = '0' :: d :: ds) : (d :: ds).all isDigit = false := by
    subst hbody
    have hmark : ∃ c ∈ d :: ds, isDigit c = false := by
      rcases h.mark with hmark | hmark
      · exact ⟨'.', by simpa using hmark, rfl⟩
      · exact ⟨'e', by simpa using hmark, rfl⟩
    obtain ⟨c, hc, hdigit⟩ := hmark
    rw [List.all_eq_false]
    exact ⟨c, hc, by simp [hdigit]⟩
  rw [hasLeadingZero]
  split
  · rename_i d ds hdrop
    rcases h with h | ⟨body, rfl, h⟩
    · rw [dropSign_eq_self (head_unsignedText h)] at hdrop
      exact hunsigned h d ds hdrop
    · exact hunsigned h d ds hdrop
  · rfl

/-- The text of a number is no unsigned integer. -/
private theorem readUnsigned?_floatText {cs : List Char} (h : IsFloatText cs) (largest : Nat) :
    readUnsigned? largest cs = none := by
  rcases h with h | ⟨body, rfl, h⟩
  · have hhead := head_unsignedText h
    have hplus : ∀ rest, cs ≠ '+' :: rest := by
      rintro rest rfl
      exact (hhead '+' rfl).1 rfl
    have hbase := readPrefixed?_eq_none largest fun c hc => ne_of_mem_unsignedText h hc
    have hdecimal : Numeral.readUnsigned? 10 largest cs = none := by
      rw [Numeral.readUnsigned?]
      · simp only [readNat?_unsignedText h]
      · exact fun rest hrest => hplus rest hrest
    rw [readUnsigned?]
    · simp [hbase, hdecimal]
    · exact fun rest hrest => hplus rest hrest
  · simp [readUnsigned?, readPrefixed?, startsWithSign]

/-- The text of a number is no negative integer. -/
private theorem readNegative?_floatText {cs : List Char} (h : IsFloatText cs)
    (largest : Nat) : readNegative? largest cs = none := by
  rcases h with h | ⟨body, rfl, h⟩
  · rw [readNegative?]
    rintro rest rfl
    exact (head_unsignedText h '-' rfl).2 rfl
  · have hdigits : readNegativeDigits? body = none := by
      have hmem {c : Char} (hc : c ∈ body) := ne_of_mem_unsignedText h hc
      rw [readNegativeDigits?]
      · exact readNat?_unsignedText h
      · rintro ds rfl
        exact (hmem (c := 'x') (by simp)).1 rfl
      · rintro ds rfl
        exact (hmem (c := 'o') (by simp)).2.1 rfl
      · rintro ds rfl
        exact (hmem (c := 'b') (by simp)).2.2 rfl
    rw [readNegative?, hdigits]
    split <;> rfl

/-- A finite number is read back. -/
theorem readFloat?_toScientific {x : Binary64} (hfinite : x.isFinite = true) :
    readFloat? x.toScientific.toList = some x := by
  have hlooks := isFloatText_toScientific hfinite
  have hread := read?_toScientific hfinite
  generalize x.toScientific.toList = cs at hlooks hread
  have hstart := hlooks.start
  have hplus : ∀ rest, cs ≠ '+' :: rest := by
    rintro rest rfl
    obtain ⟨c, hc, h⟩ := hstart
    obtain rfl : '+' = c := by simpa using hc
    revert h
    decide
  -- the words for infinity and for no number have no digit where a number has one
  have hminus (word : String) (hword : word.toList.head? = some '-' ∧
      (word.toList.drop 1).head?.any isDigit = false) : String.ofList cs ≠ word := by
    rintro rfl
    rw [String.toList_ofList] at hword
    obtain ⟨hstart, hword⟩ := hword
    rcases hlooks with h | ⟨body, rfl, h⟩
    · exact (head_unsignedText h '-' hstart).2 rfl
    · obtain ⟨c, hc, hdigit⟩ := h.head
      rw [List.drop_succ_cons, List.drop_zero, Option.mem_def.mp hc, Option.any_some,
        hdigit] at hword
      exact Bool.noConfusion hword
  rw [readFloat?]
  · have hhead : ∃ c ∈ (String.ofList cs).toList.head?, isDigit c = true ∨ c = '-' := by
      simpa using hstart
    have hne := ne_words hhead [".inf", ".Inf", ".INF", ".nan", ".NaN", ".NAN"] (by decide)
    have hinf := hminus "-.inf" (by decide)
    have hInf := hminus "-.Inf" (by decide)
    have hINF := hminus "-.INF" (by decide)
    simp_all
  · exact fun rest hrest => hplus rest hrest

/-- A finite number is written in its shortest decimal. -/
theorem floatText_of_isFinite {x : Binary64} (hfinite : x.isFinite = true) :
    Value.floatText x = x.toScientific := by
  have hnan : x.isNaN = false := by
    have hexponent := hfinite
    rw [Binary64.isFinite, bne_iff_ne] at hexponent
    simp [Binary64.isNaN, hexponent]
  simp [Value.floatText, hnan, hfinite]

/-- A finite number is a floating-point number. -/
theorem plainValue_toScientific {x : Binary64} (hfinite : x.isFinite = true) :
    plainValue x.toScientific = some (.float x) := by
  have hlooks := isFloatText_toScientific hfinite
  have hint : readInt? x.toScientific.toList = none := by
    rw [readInt?, readUnsigned?_floatText hlooks]
    exact readNegative?_floatText hlooks _
  have hwide : wideInt? x.toScientific.toList = none := by
    rw [wideInt?, hint, readUnsigned?_floatText hlooks, readNegative?_floatText hlooks]
    rfl
  rw [plainValue_number hlooks.start, hint, hwide, hasLeadingZero_floatText hlooks,
    readFloat?_toScientific hfinite]
  rfl

end RunPlan.Yaml
