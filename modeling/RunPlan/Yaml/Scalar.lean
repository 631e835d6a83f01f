import RunPlan.Yaml.Node

/-!
# The meaning of plain scalars

A plain scalar is null, a boolean, a number or a text, by its looks. `plainValue`
decides; the readers of single kinds (`readUnsigned?`, `readFloat?` and so on) are also
used for fields that expect one kind only.

An integer is decimal, or has one of the prefixes `0x`, `0o`, `0b` after its sign. Digits
after a leading zero make a text, as in `007`.
-/

namespace RunPlan.Yaml

/-- The spellings of null. -/
def isNullText (text : String) : Bool :=
  text == "null" || text == "Null" || text == "NULL" || text == "~"

/-- The spellings of booleans. -/
def readBool? (text : String) : Option Bool :=
  if text = "true" ∨ text = "True" ∨ text = "TRUE" then some true
  else if text = "false" ∨ text = "False" ∨ text = "FALSE" then some false
  else none

/-- Removes one sign. -/
def dropSign : List Char → List Char
  | '-' :: cs => cs
  | '+' :: cs => cs
  | cs => cs

/-- Whether a text starts with a sign. -/
def startsWithSign : List Char → Bool
  | '-' :: _ => true
  | '+' :: _ => true
  | _ => false

/-- Digits with a needless zero in front, which are a text. -/
def hasLeadingZero (cs : List Char) : Bool :=
  match dropSign cs with
  | '0' :: d :: ds => (d :: ds).all Text.isDigit
  | _ => false

/-- A number after one of the prefixes `0x`, `0o`, `0b`: whether there is a prefix, and
the number if it is well formed. -/
def readPrefixed? (largest : Nat) : List Char → Option (Option Nat)
  | '0' :: 'x' :: ds => some (Numeral.readUnsigned? 16 largest ds)
  | '0' :: 'o' :: ds => some (Numeral.readUnsigned? 8 largest ds)
  | '0' :: 'b' :: ds => some (Numeral.readUnsigned? 2 largest ds)
  | _ => none

/-- An unsigned integer not above `largest`. -/
def readUnsigned? (largest : Nat) (cs : List Char) : Option Nat :=
  let digits := match cs with
    | '+' :: rest => rest
    | _ => cs
  let signAfterPrefix := startsWithSign (digits.drop 2)
  match readPrefixed? largest digits with
  | some (some n) => if signAfterPrefix then none else some n
  | some none => none
  | none =>
    if startsWithSign digits || hasLeadingZero cs then none
    else Numeral.readUnsigned? 10 largest digits

/-- The digits after `-`, `-0x`, `-0o` or `-0b`. -/
def readNegativeDigits? : List Char → Option Nat
  | '0' :: 'x' :: ds => Numeral.readNat? 16 ds
  | '0' :: 'o' :: ds => Numeral.readNat? 8 ds
  | '0' :: 'b' :: ds => Numeral.readNat? 2 ds
  | ds => Numeral.readNat? 10 ds

/-- A negative integer not below `-largest`. -/
def readNegative? (largest : Nat) (cs : List Char) : Option Int :=
  match cs with
  | '-' :: ds =>
    if hasLeadingZero cs then none
    else
      match readNegativeDigits? ds with
      | some n => if n ≤ largest then some (-(n : Int)) else none
      | none => none
  | _ => none

/-- An integer of 64 bits, unsigned or signed. -/
def readInt? (cs : List Char) : Option Int :=
  match readUnsigned? (2 ^ 64 - 1) cs with
  | some n => some n
  | none => readNegative? (2 ^ 63) cs

/-- An integer that needs more than 64 bits but not more than 128. No kind of value can
hold it. -/
def wideInt? (cs : List Char) : Option Int :=
  if (readInt? cs).isSome then none
  else
    match readUnsigned? (2 ^ 128 - 1) cs with
    | some n => some n
    | none => readNegative? (2 ^ 127) cs

/-- A floating-point number: a decimal that is not too large, or one of the words for
infinity and for what is not a number. -/
def readFloat? (cs : List Char) : Option Binary64 :=
  let text := String.ofList cs
  let (unsigned, plus) := match cs with
    | '+' :: rest => (rest, true)
    | _ => (cs, false)
  if plus && startsWithSign unsigned then none
  else
    let word := String.ofList unsigned
    if word = ".inf" ∨ word = ".Inf" ∨ word = ".INF" then some (.infinity false)
    else if text = "-.inf" ∨ text = "-.Inf" ∨ text = "-.INF" then some (.infinity true)
    else if text = ".nan" ∨ text = ".NaN" ∨ text = ".NAN" then some .nan
    else
      match Binary64.read? unsigned with
      | some x => if x.isFinite then some x else none
      | none => none

/-- The value of a plain scalar, or `none` for an integer that no value can hold. -/
def plainValue (text : String) : Option Value :=
  let cs := text.toList
  if text = "" ∨ isNullText text then some .null
  else
    match readBool? text with
    | some b => some (.bool b)
    | none =>
      match readInt? cs with
      | some n => some (.int n)
      | none =>
        if (wideInt? cs).isSome then none
        else if hasLeadingZero cs then some (.string text)
        else
          match readFloat? cs with
          | some x => some (.float x)
          | none => some (.string text)

/-! ### Tags -/

/-- The tags that force the kind of a scalar. -/
inductive CoreTag where
  | bool
  | int
  | float
  | null
deriving DecidableEq, Repr

/-- What a tag in full means for a scalar. -/
inductive TagKind where
  /-- No tag. -/
  | untagged
  /-- One of the tags that force a kind. -/
  | core (tag : CoreTag)
  /-- A tag of the document's own, without its `!`. -/
  | own (name : String)
  /-- Any other tag, such as `!!str`. -/
  | other
deriving DecidableEq, Repr

/-- The name of a document's own tag; the tag `!` is its own name. -/
def ownTagName : List Char → Option String
  | ['!'] => some "!"
  | '!' :: name => some (String.ofList name)
  | _ => none

/-- The kind of a tag. -/
def tagKind : Option String → TagKind
  | none => .untagged
  | some tag =>
    if tag = "tag:yaml.org,2002:bool" then .core .bool
    else if tag = "tag:yaml.org,2002:int" then .core .int
    else if tag = "tag:yaml.org,2002:float" then .core .float
    else if tag = "tag:yaml.org,2002:null" then .core .null
    else
      match ownTagName tag.toList with
      | some name => .own name
      | none => .other

/-- The value of a scalar with a tag that forces its kind; `none` when the text does not
fit, or is an integer that no value can hold. -/
def coreValue (tag : CoreTag) (text : String) : Option Value :=
  match tag with
  | .bool => (readBool? text).map .bool
  | .int => (readInt? text.toList).map .int
  | .float => (readFloat? text.toList).map .float
  | .null => if isNullText text then some .null else none

/-- The value of a scalar without regard to a tag of the document's own. -/
def scalarValue (tag : Option String) (plain : Bool) (text : String) : Option Value :=
  match tagKind tag with
  | .core core => coreValue core text
  | .other => some (.string text)
  | .untagged | .own _ => if plain then plainValue text else some (.string text)

/-! ### From nodes to values and back -/

/-- Puts a document's own tag around a value. -/
def withTag (tag : Option String) (v : Value) : Value :=
  match tagKind tag with
  | .own name => .tagged name v
  | _ => v

mutual

/-- The value of a node; `none` when a scalar in it has no value. -/
def Node.toValue : Node → Option Value
  | .scalar tag plain text => (scalarValue tag plain text).map (withTag tag)
  | .sequence tag items => (itemValues items).map fun vs => withTag tag (.sequence vs)
  | .mapping tag entries => (entryValues entries).map fun vs => withTag tag (.mapping vs)
  | .reference (some target) => target.toValue
  | .reference none => none

/-- The values of the items of a sequence. -/
def itemValues : List Node → Option (List Value)
  | [] => some []
  | n :: ns =>
    match n.toValue, itemValues ns with
    | some v, some vs => some (v :: vs)
    | _, _ => none

/-- The values of the entries of a mapping. -/
def entryValues : List (Node × Node) → Option (List (Value × Value))
  | [] => some []
  | (k, n) :: rest =>
    match k.toValue, n.toValue, entryValues rest with
    | some key, some v, some vs => some ((key, v) :: vs)
    | _, _, _ => none

end

/-- A tag of a value as a document writes it in full. -/
def fullTag (name : String) : String :=
  if name.toList.head? = some '!' then name else "!" ++ name

/-- Puts a tag on a node. -/
def Node.tag (tag : String) : Node → Node
  | .scalar _ plain text => .scalar (some tag) plain text
  | .sequence _ items => .sequence (some tag) items
  | .mapping _ entries => .mapping (some tag) entries
  | .reference target => .reference target

mutual

/-- The node that a printed value reads back as. Numbers, booleans and null are plain in
their canonical spelling. A text counts as quoted: the printer leaves quotes off only
where the reader takes the text for a text all the same. -/
def valueNode : Value → Node
  | .null => .ofPlain "null"
  | .bool true => .ofPlain "true"
  | .bool false => .ofPlain "false"
  | .int n => .ofPlain (Numeral.ofInt n)
  | .float x => .ofPlain (Value.floatText x)
  | .string s => .scalar none false s
  | .sequence items => .sequence none (valueNodes items)
  | .mapping entries => .mapping none (entryNodes entries)
  | .tagged tag content => (valueNode content).tag (fullTag tag)

/-- The nodes of the items of a sequence. -/
def valueNodes : List Value → List Node
  | [] => []
  | v :: vs => valueNode v :: valueNodes vs

/-- The nodes of the entries of a mapping. -/
def entryNodes : List (Value × Value) → List (Node × Node)
  | [] => []
  | (k, v) :: rest => (valueNode k, valueNode v) :: entryNodes rest

end

end RunPlan.Yaml
