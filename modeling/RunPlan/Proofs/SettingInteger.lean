import RunPlan.Proofs.Settings
import RunPlan.Proofs.Yaml.Scalar

/-!
# Integers in documents and among settings

Strict reading and settings have different integers: strict reading knows three prefixes and
numbers of 64 bits without a sign, settings know two prefixes and take a leading zero for
nothing. What is an integer for both is the same one.

## Key results

- `Settings.eq_of_plainValue_int`: a plain scalar is the same integer for both
-/

namespace RunPlan

open Yaml

/-! ## Digits after a plus sign -/

/-- Removes one plus sign. -/
def dropPlus : List Char → List Char
  | '+' :: cs => cs
  | cs => cs

/-- Nothing is removed where there is no sign. -/
private theorem dropPlus_eq_self {cs : List Char} (h : startsWithSign cs = false) :
    dropPlus cs = cs := by
  fun_cases dropPlus cs with
  | case1 => cases h
  | case2 => rfl

/-- An unsigned number by its digits. -/
private theorem readUnsigned?_eq_digits (base largest : Nat) (cs : List Char) :
    Numeral.readUnsigned? base largest cs =
      match Numeral.readNat? base (dropPlus cs) with
      | some n => if n ≤ largest then some n else none
      | none => none := by
  fun_cases dropPlus cs with
  | case1 => rfl
  | case2 _ hplus =>
    unfold Numeral.readUnsigned?
    split
    · exact absurd rfl (hplus _)
    · rfl

/-- A negative number by its digits. -/
private theorem readSigned?_eq_digits (base : Nat) (ds : List Char) :
    Numeral.readSigned? base ('-' :: ds) =
      match Numeral.readNat? base ds with
      | some n => if n ≤ 2 ^ 63 then some (-(n : Int)) else none
      | none => none :=
  rfl

/-- A number without a minus sign is what the digits after its plus sign stand for. -/
private theorem readNat?_of_readUnsigned? {base largest n : Nat} {cs : List Char}
    (h : Numeral.readUnsigned? base largest cs = some n) :
    Numeral.readNat? base (dropPlus cs) = some n := by
  rw [readUnsigned?_eq_digits] at h
  split at h
  · rename_i k hk
    split at h
    · rw [hk, Option.some.inj h]
    · cases h
  · cases h

/-- So is a number that may have a minus sign, but has none. -/
private theorem readSigned?_cases {base : Nat} {cs : List Char} {m : Int}
    (h : Numeral.readSigned? base cs = some m) :
    (∃ ds, cs = '-' :: ds) ∨ ∃ n : Nat, Numeral.readNat? base (dropPlus cs) = some n ∧ m = n := by
  unfold Numeral.readSigned? at h
  split at h
  · exact .inl ⟨_, rfl⟩
  · obtain ⟨n, hn, rfl⟩ := Option.map_eq_some_iff.mp h
    exact .inr ⟨n, readNat?_of_readUnsigned? hn, rfl⟩

/-- The digits after a plus sign decide what a number is. -/
private theorem eq_of_readSigned? {base n : Nat} {cs : List Char} {m : Int}
    (hn : Numeral.readNat? base (dropPlus cs) = some n)
    (hm : Numeral.readSigned? base cs = some m) : m = n := by
  cases readSigned?_cases hm with
  | inl hminus =>
    obtain ⟨ds, rfl⟩ := hminus
    cases hn
  | inr hplus =>
    obtain ⟨k, hk, rfl⟩ := hplus
    rw [Option.some.inj (hk.symm.trans hn)]

/-! ## Numbers in documents -/

/-- Text with a letter, a sign or the like in it is no decimal. -/
private theorem readNat?_eq_none {cs : List Char} {c : Char} (hc : c ∈ cs)
    (h : ∀ d ∈ Numeral.digitValue c, 10 ≤ d) : Numeral.readNat? 10 cs = none := by
  rw [Numeral.readNat?, if_neg (List.ne_nil_of_mem hc), readDigits_eq_none hc h]

/-- Digits after a prefix are no decimal. -/
private theorem readNat?_of_readPrefixed? {largest : Nat} {ds : List Char} {r : Option Nat}
    (h : Yaml.readPrefixed? largest ds = some r) : Numeral.readNat? 10 ds = none := by
  unfold Yaml.readPrefixed? at h
  split at h
  · exact readNat?_eq_none (c := 'x') (by simp) (by decide)
  · exact readNat?_eq_none (c := 'o') (by simp) (by decide)
  · exact readNat?_eq_none (c := 'b') (by simp) (by decide)
  · cases h

/-- A prefix starts with a digit. -/
private theorem startsWithSign_of_readPrefixed? {largest : Nat} {ds : List Char} {r : Option Nat}
    (h : Yaml.readPrefixed? largest ds = some r) : startsWithSign ds = false := by
  unfold Yaml.readPrefixed? at h
  split at h
  · rfl
  · rfl
  · rfl
  · cases h

/-- An unsigned integer of a document by its digits. -/
private theorem readUnsigned?_eq_prefixed (largest : Nat) (cs : List Char) :
    Yaml.readUnsigned? largest cs =
      match Yaml.readPrefixed? largest (dropPlus cs) with
      | some (some n) => if startsWithSign ((dropPlus cs).drop 2) then none else some n
      | some none => none
      | none =>
        if startsWithSign (dropPlus cs) || hasLeadingZero cs then none
        else Numeral.readUnsigned? 10 largest (dropPlus cs) := by
  fun_cases dropPlus cs with
  | case1 => rfl
  | case2 _ hplus =>
    unfold Yaml.readUnsigned?
    split
    · exact absurd rfl (hplus _)
    · rfl

/-- An unsigned integer is a number with a prefix, or a decimal. -/
private theorem readUnsigned?_cases {largest n : Nat} {cs : List Char}
    (h : Yaml.readUnsigned? largest cs = some n) :
    Yaml.readPrefixed? largest (dropPlus cs) = some (some n) ∨
      (startsWithSign (dropPlus cs) = false ∧ Numeral.readNat? 10 (dropPlus cs) = some n) := by
  rw [readUnsigned?_eq_prefixed] at h
  split at h
  · rename_i k hk
    split at h
    · cases h
    · rw [← Option.some.inj h]
      exact .inl hk
  · cases h
  · split at h
    · cases h
    · rename_i hsign
      rw [Bool.or_eq_true, not_or, Bool.not_eq_true] at hsign
      have hn := readNat?_of_readUnsigned? h
      rw [dropPlus_eq_self hsign.1] at hn
      exact .inr ⟨hsign.1, hn⟩

/-! ## Numbers for both -/

/-- Where a number has one of the prefixes of strict reading, it is no decimal. -/
private theorem readSigned?_of_readPrefixed? {largest : Nat} {cs : List Char} {r : Option Nat}
    (h : Yaml.readPrefixed? largest (dropPlus cs) = some r) :
    Numeral.readSigned? 10 cs = none := by
  by_contra hsome
  obtain ⟨m, hm⟩ := Option.ne_none_iff_exists'.mp hsome
  cases readSigned?_cases hm with
  | inl hminus =>
    obtain ⟨ds, rfl⟩ := hminus
    cases h
  | inr hplus =>
    obtain ⟨k, hk, -⟩ := hplus
    rw [readNat?_of_readPrefixed? h] at hk
    cases hk

/-- An unsigned integer that is an integer for settings is the same one there. -/
private theorem eq_of_readUnsigned? {largest n : Nat} {cs : List Char} {m : Int}
    (hn : Yaml.readUnsigned? largest cs = some n)
    (hm : Settings.readPrefixed? cs = some m ∨ Numeral.readSigned? 10 cs = some m) : m = n := by
  cases hm with
  | inr hm =>
    cases readUnsigned?_cases hn with
    | inl hprefixed =>
      rw [readSigned?_of_readPrefixed? hprefixed] at hm
      cases hm
    | inr hdecimal => exact eq_of_readSigned? hdecimal.2 hm
  | inl hm =>
    -- the base is that of strict reading, as a number with a prefix is no decimal
    have hprefixed {base : Nat} {cs ds : List Char}
        (hread : Yaml.readPrefixed? largest cs = some (Numeral.readUnsigned? base largest ds))
        (hcs : dropPlus cs = cs)
        (hn : Yaml.readUnsigned? largest cs = some n)
        (hm : Numeral.readSigned? base ds = some m) : m = n := by
      cases readUnsigned?_cases hn with
      | inl h =>
        rw [hcs, hread] at h
        exact eq_of_readSigned? (readNat?_of_readUnsigned? (Option.some.inj h)) hm
      | inr h =>
        rw [hcs, readNat?_of_readPrefixed? hread] at h
        cases h.2
    unfold Settings.readPrefixed? at hm
    split at hm
    · exact hprefixed rfl rfl hn hm
    · exact hprefixed rfl rfl hn hm
    · rename_i ds
      cases readUnsigned?_cases hn with
      | inl h =>
        rw [show dropPlus ('+' :: ds) = ds from rfl] at h
        have hsign := dropPlus_eq_self (startsWithSign_of_readPrefixed? h)
        rw [readSigned?_of_readPrefixed? (hsign.symm ▸ h)] at hm
        cases hm
      | inr h =>
        apply eq_of_readSigned? _ hm
        rw [show dropPlus ('+' :: ds) = ds from rfl] at h
        rw [dropPlus_eq_self h.1]
        exact h.2
    · cases hm

/-- A decimal after a minus sign has no prefix. -/
private theorem readNegativeDigits?_of_readNat? {ds : List Char} {n : Nat}
    (h : Numeral.readNat? 10 ds = some n) : readNegativeDigits? ds = some n := by
  have hprefixed {r : Option Nat} (hds : Yaml.readPrefixed? 0 ds = some r) : False := by
    rw [readNat?_of_readPrefixed? hds] at h
    cases h
  unfold readNegativeDigits?
  split
  · exact (hprefixed rfl).elim
  · exact (hprefixed rfl).elim
  · exact (hprefixed rfl).elim
  · exact h

/-- So is a negative one. -/
private theorem eq_of_readNegative? {largest : Nat} {cs : List Char} {k m : Int}
    (hk : readNegative? largest cs = some k)
    (hm : Settings.readPrefixed? cs = some m ∨ Numeral.readSigned? 10 cs = some m) : m = k := by
  unfold readNegative? at hk
  split at hk
  · rename_i ds
    replace hm : Numeral.readSigned? 10 ('-' :: ds) = some m := by
      cases hm with
      | inl hprefixed => cases hprefixed
      | inr hm => exact hm
    rw [readSigned?_eq_digits] at hm
    split at hk
    · cases hk
    split at hm
    · rename_i n hn
      rw [readNegativeDigits?_of_readNat? hn] at hk
      dsimp only at hk
      split at hm
      · split at hk
        · rw [← Option.some.inj hm, ← Option.some.inj hk]
        · cases hk
      · cases hm
    · cases hm
  · cases hk

/-- An integer in a document is read as one. -/
private theorem readInt?_of_plainValue {text : String} {k : Int}
    (h : Yaml.plainValue text = some (.int k)) : readInt? text.toList = some k := by
  simp only [Yaml.plainValue] at h
  split at h
  · cases h
  split at h
  · cases h
  split at h
  · rename_i n hn
    rw [hn, Value.int.inj (Option.some.inj h)]
  split at h
  · cases h
  split at h
  · cases h
  split at h
  · cases h
  · cases h

/-- What is an integer in a document and among settings is the same integer. -/
theorem Settings.eq_of_plainValue_int {text : String} {k m : Int}
    (hk : Yaml.plainValue text = some (.int k)) (hm : Settings.plainValue text = some (.int m)) :
    m = k := by
  have hread := readInt?_of_plainValue hk
  cases isPlainValue_of_plainValue hm with
  | int hsetting =>
    unfold readInt? at hread
    split at hread
    · rename_i n hn
      rw [eq_of_readUnsigned? hn hsetting, ← Option.some.inj hread]
    · exact eq_of_readNegative? hread hsetting

end RunPlan
