import RunPlan.Number.Binary64

/-!
# Decimal notation of floating-point numbers

Three notations are in use, all showing the shortest digits: `Binary64.toPlain` never
uses an exponent and writes whole numbers without a point; `toPointed` adds the point;
`toScientific` switches to an exponent for very large and very small numbers.
`Binary64.read?` reads any of them.
-/

namespace RunPlan.Binary64

/-- `digits * 10 ^ power` without an exponent; whole numbers end in `whole`. -/
def positional (digits : Nat) (power : Int) (whole : String) : String :=
  let text := Nat.toDigits 10 digits
  let point : Int := text.length + power
  if 0 ≤ power then
    String.ofList (text ++ List.replicate power.toNat '0') ++ whole
  else if 0 < point then
    String.ofList (text.take point.toNat ++ ['.'] ++ text.drop point.toNat)
  else
    String.ofList (['0', '.'] ++ List.replicate (-point).toNat '0' ++ text)

/-- A sign for negative numbers. -/
def signText (x : Binary64) : String :=
  if x.isNegative then "-" else ""

/-- What stands for numbers that have no digits. -/
def nonFiniteText (x : Binary64) : String :=
  if x.isNaN then "NaN" else x.signText ++ "inf"

/-- Without an exponent, whole numbers ending in `whole`. -/
def toPositional (whole : String) (x : Binary64) : String :=
  if !x.isFinite then x.nonFiniteText
  else if x.isZero then x.signText ++ "0" ++ whole
  else
    let (digits, power) := x.shortest .up
    x.signText ++ positional digits power whole

/-- Without an exponent, whole numbers without a point: `3`, `0.25`. -/
def toPlain (x : Binary64) : String :=
  x.toPositional ""

/-- Without an exponent, always with a point: `3.0`, `0.25`. -/
def toPointed (x : Binary64) : String :=
  x.toPositional ".0"

/-- The exponent form `d.ddde±x`. -/
def withExponent (digits : Nat) (power : Int) : String :=
  match Nat.toDigits 10 digits with
  | [] => "0"
  | [d] => String.ofList [d, 'e'] ++ Numeral.ofInt power
  | d :: ds =>
    String.ofList (d :: '.' :: ds ++ ['e']) ++ Numeral.ofInt (power + ds.length)

/-- A finite number with a point or an exponent: `3.0`, `0.25`, `1e-7`, `1.5e16`. An
exponent is used from `1e16` up and below `1e-5`. -/
def toScientific (x : Binary64) : String :=
  if x.isZero then x.signText ++ "0.0"
  else
    let (digits, power) := x.shortest .even
    let point : Int := (Nat.toDigits 10 digits).length + power
    if -5 < point ∧ point ≤ 16 then x.signText ++ positional digits power ".0"
    else x.signText ++ withExponent digits power

/-! ### Reading -/

/-- Splits off the leading digits. -/
def spanDigits (cs : List Char) : List Char × List Char :=
  cs.span Text.isDigit

/-- The exponent part: nothing, or `e` with a signed number. -/
def readExponent? : List Char → Option Int
  | [] => some 0
  | c :: cs =>
    if c = 'e' ∨ c = 'E' then
      match cs with
      | '-' :: digits => (Numeral.readNat? 10 digits).map fun n => -(n : Int)
      | '+' :: digits => (Numeral.readNat? 10 digits).map Int.ofNat
      | digits => (Numeral.readNat? 10 digits).map Int.ofNat
    else none

/-- A number without a sign: digits with an optional point and exponent, or one of the
words `inf`, `infinity`, `nan` in any letter case. -/
def readUnsigned? (negative : Bool) (cs : List Char) : Option Binary64 :=
  let word := String.ofList (cs.map Text.asciiLower)
  if word = "inf" ∨ word = "infinity" then some (infinity negative)
  else if word = "nan" then some nan
  else
    let (whole, afterWhole) := spanDigits cs
    let (part, rest) := match afterWhole with
      | '.' :: more => spanDigits more
      | _ => ([], afterWhole)
    match Numeral.readNat? 10 (whole ++ part), readExponent? rest with
    | some digits, some e => some (ofDecimal negative digits (e - part.length))
    | _, _ => none

/-- Reads a floating-point number with an optional sign. -/
def read? (cs : List Char) : Option Binary64 :=
  match cs with
  | '-' :: rest => readUnsigned? true rest
  | '+' :: rest => readUnsigned? false rest
  | _ => readUnsigned? false cs

end RunPlan.Binary64
