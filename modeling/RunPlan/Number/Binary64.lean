import RunPlan.Number.Numeral

/-!
# Floating-point numbers of 64 bits

A `Binary64` is its bit pattern, so that two of them are equal as data exactly when they
are the same number with the same sign (and the same payload, for what is not a number).
A finite one is `± significand * 2 ^ exponent`.

`ofDecimal` rounds a decimal to the nearest number, ties to even, by one exact division.
`shortest` goes the other way: the fewest decimal digits that `ofDecimal` takes back to
the number, the nearest to it among those. A number can lie exactly between two such
decimals (`2 ^ -25` does); `Tie` says which one a notation takes.
-/

namespace RunPlan

/-- A number in the 64-bit binary interchange format. -/
structure Binary64 where
  bits : UInt64
deriving DecidableEq, Repr, Inhabited

namespace Binary64

/-- The sign bit. -/
def isNegative (x : Binary64) : Bool :=
  2 ^ 63 ≤ x.bits.toNat

/-- The eleven exponent bits. -/
def biasedExponent (x : Binary64) : Nat :=
  x.bits.toNat / 2 ^ 52 % 2 ^ 11

/-- The fifty-two fraction bits. -/
def fraction (x : Binary64) : Nat :=
  x.bits.toNat % 2 ^ 52

/-- Neither infinite nor not-a-number. -/
def isFinite (x : Binary64) : Bool :=
  x.biasedExponent != 2047

/-- Not a number. -/
def isNaN (x : Binary64) : Bool :=
  x.biasedExponent == 2047 && x.fraction != 0

/-- The integer significand of a finite number. -/
def significand (x : Binary64) : Nat :=
  if x.biasedExponent = 0 then x.fraction else 2 ^ 52 + x.fraction

/-- The exponent that goes with `significand`. -/
def exponent (x : Binary64) : Int :=
  max 1 x.biasedExponent - 1075

/-- Positive or negative zero. -/
def isZero (x : Binary64) : Bool :=
  x.bits.toNat % 2 ^ 63 == 0

/-- The number with the given sign and the other 63 bits. -/
def pack (negative : Bool) (rest : Nat) : Binary64 :=
  ⟨UInt64.ofNat ((if negative then 2 ^ 63 else 0) + rest)⟩

/-- Infinity of either sign. -/
def infinity (negative : Bool) : Binary64 :=
  pack negative (2047 * 2 ^ 52)

/-- The not-a-number that reading produces. -/
def nan : Binary64 :=
  pack false (2047 * 2 ^ 52 + 2 ^ 51)

/-- Positive zero. -/
def zero : Binary64 :=
  pack false 0

/-- Equality of values: zeros of both signs are equal, and what is not a number differs
even from itself. -/
def sameValue (x y : Binary64) : Bool :=
  !x.isNaN && !y.isNaN && (x == y || (x.isZero && y.isZero))

/-- Whether the value is below zero. -/
def isBelowZero (x : Binary64) : Bool :=
  x.isNegative && !x.isZero && !x.isNaN

/-- `num / (den * 2 ^ e)` as a floor division and what remains, scaled to be whole. -/
def scaledDivision (num den : Nat) (e : Int) : Nat × Nat × Nat :=
  let top := num * 2 ^ (-e).toNat
  let bottom := den * 2 ^ e.toNat
  (top / bottom, top % bottom, bottom)

/-- The exponent at which `num / den` has a significand of 53 bits, or the least
exponent there is. -/
def roundingExponent (num den : Nat) : Int :=
  let guess : Int := (Nat.log2 num : Int) - Nat.log2 den - 52
  let e := if (scaledDivision num den guess).1 < 2 ^ 52 then guess - 1 else guess
  max e (-1074)

/-- The number nearest to `num / den`, ties to even. The biased exponent and the
significand add up to the bit pattern, so a carry out of the significand lands in the
exponent, where it belongs. -/
def ofRatio (negative : Bool) (num den : Nat) : Binary64 :=
  if num = 0 then pack negative 0
  else
    let e := roundingExponent num den
    let (q, r, bottom) := scaledDivision num den e
    let up := bottom < 2 * r || (bottom == 2 * r && q % 2 == 1)
    let rest := (e + 1074).toNat * 2 ^ 52 + (if up then q + 1 else q)
    if rest < 2047 * 2 ^ 52 then pack negative rest else infinity negative

/-- The number nearest to `digits * 10 ^ power`. Powers far out of range are settled
without forming them. -/
def ofDecimal (negative : Bool) (digits : Nat) (power : Int) : Binary64 :=
  if digits = 0 then pack negative 0
  else
    let size : Int := (Nat.toDigits 10 digits).length
    if 400 < size + power then infinity negative
    else if size + power < -400 then pack negative 0
    else ofRatio negative (digits * 10 ^ power.toNat) (10 ^ (-power).toNat)

/-! ### Shortest decimals -/

/-- Which of two equally near decimals to take: the larger one, or the one with the even
last digit. -/
inductive Tie where
  | up
  | even
deriving DecidableEq, Repr

/-- The magnitude as a ratio of whole numbers. -/
def magnitude (x : Binary64) : Nat × Nat :=
  (x.significand * 2 ^ x.exponent.toNat, 2 ^ (-x.exponent).toNat)

/-- A decimal without trailing zeros. At most `fuel` of them are dropped. -/
def dropZeros : Nat → Nat → Int → Nat × Int
  | 0, digits, power => (digits, power)
  | fuel + 1, digits, power =>
    if digits % 10 = 0 then dropZeros fuel (digits / 10) (power + 1) else (digits, power)

/-- The power of ten just above `num / den`, up to one: `num / den < 10 ^ result`. -/
def decimalMagnitude (num den : Nat) : Int :=
  let below (p : Int) : Bool := num * 10 ^ (-p).toNat < den * 10 ^ p.toNat
  let guess := ((Nat.log2 num : Int) - Nat.log2 den - 1) * 30103 / 100000
  if below guess then guess
  else if below (guess + 1) then guess + 1
  else if below (guess + 2) then guess + 2
  else guess + 3

/-- The decimal of `count` digits nearest to the magnitude of `x` among the two around
it that read back as `x`. -/
def decimalOf? (x : Binary64) (tie : Tie) (top : Int) (count : Nat) : Option (Nat × Int) :=
  let (num, den) := x.magnitude
  let power := top - count
  let scaled := num * 10 ^ (-power).toNat
  let unit := den * 10 ^ power.toNat
  let low := scaled / unit
  let readsBack (digits : Nat) : Bool :=
    ofDecimal x.isNegative digits power == x
  let rest := 2 * (scaled % unit)
  let lowIsNear := rest < unit || (rest == unit && tie == .even && low % 2 == 0)
  let (near, far) := if lowIsNear then (low, low + 1) else (low + 1, low)
  if readsBack near then some (near, power)
  else if readsBack far then some (far, power)
  else none

/-- The first count of digits, from `count` on, at which the decimal reads back. -/
def searchDecimal (x : Binary64) (tie : Tie) (top : Int) : Nat → Nat → Option (Nat × Int)
  | 0, _ => none
  | fuel + 1, count =>
    match decimalOf? x tie top count with
    | some found => some found
    | none => searchDecimal x tie top fuel (count + 1)

/-- The exact decimal of a finite number. -/
def exactDecimal (x : Binary64) : Nat × Int :=
  (x.significand * 2 ^ x.exponent.toNat * 5 ^ (-x.exponent).toNat, min x.exponent 0)

/-- The shortest decimal of a finite number other than zero: digits that do not end in
zero, and a power of ten. Seventeen digits always read back; the exact decimal stands
behind the search all the same. -/
def shortest (x : Binary64) (tie : Tie) : Nat × Int :=
  let (num, den) := x.magnitude
  let found := (searchDecimal x tie (decimalMagnitude num den) 17 1).getD x.exactDecimal
  dropZeros 20 found.1 found.2

end Binary64

end RunPlan
