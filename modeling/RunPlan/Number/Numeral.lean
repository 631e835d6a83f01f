import RunPlan.Text.Basic

/-!
# Numerals

Reading and writing whole numbers. `Numeral.ofNat` and `Numeral.ofInt` write the
canonical decimal; `readNat?` reads digits in any base up to sixteen; `readUnsigned?`
and `readSigned?` are the forms with a sign and a range.
-/

namespace RunPlan.Numeral

-- powers of natural numbers are those of the core library, whatever else is in scope
attribute [instance (high + 1), default_instance (high + 1)] instPowNat

/-- The decimal of a natural number. -/
def ofNat (n : Nat) : String :=
  String.ofList (Nat.toDigits 10 n)

/-- The decimal of an integer. -/
def ofInt (n : Int) : String :=
  if n < 0 then "-" ++ ofNat n.natAbs else ofNat n.natAbs

/-- The value of a digit or letter as a digit. -/
def digitValue (c : Char) : Option Nat :=
  if '0' ≤ c && c ≤ '9' then some (c.toNat - 48)
  else if 'a' ≤ c && c ≤ 'f' then some (c.toNat - 87)
  else if 'A' ≤ c && c ≤ 'F' then some (c.toNat - 55)
  else none

/-- Reads digits after a number already read. -/
def readDigits (base : Nat) : Nat → List Char → Option Nat
  | value, [] => some value
  | value, c :: cs =>
    match digitValue c with
    | some d => if d < base then readDigits base (value * base + d) cs else none
    | none => none

/-- A text that is one or more digits of the base, and nothing else. -/
def readNat? (base : Nat) (cs : List Char) : Option Nat :=
  if cs = [] then none else readDigits base 0 cs

/-- A number not above `largest`, with an optional `+`. -/
def readUnsigned? (base largest : Nat) (cs : List Char) : Option Nat :=
  let digits := match cs with
    | '+' :: rest => rest
    | _ => cs
  match readNat? base digits with
  | some n => if n ≤ largest then some n else none
  | none => none

/-- A number of 64 bits in two's complement, with an optional sign. -/
def readSigned? (base : Nat) (cs : List Char) : Option Int :=
  match cs with
  | '-' :: rest =>
    match readNat? base rest with
    | some n => if n ≤ 2 ^ 63 then some (-(n : Int)) else none
    | none => none
  | _ => (readUnsigned? base (2 ^ 63 - 1) cs).map Int.ofNat

end RunPlan.Numeral
