import RunPlan.Number.Decimal

/-!
# Data trees

A `Value` is what a document says once scalars have their meaning: null, booleans,
numbers, texts, sequences and mappings, whatever notation they were written in. Mappings
keep the order of their entries, and keys may be any value.
-/

namespace RunPlan

/-- A tree of data. -/
inductive Value where
  | null
  | bool (b : Bool)
  | int (n : Int)
  | float (x : Binary64)
  | string (s : String)
  | sequence (items : List Value)
  | mapping (entries : List (Value × Value))
  | tagged (tag : String) (content : Value)
deriving Repr, Inhabited

namespace Value

/-- The text of an unquoted floating-point number in a document. -/
def floatText (x : Binary64) : String :=
  if x.isNaN then ".nan"
  else if !x.isFinite then x.signText ++ ".inf"
  else x.toScientific

/-- Equality of floating-point numbers as keys: by value, and what is not a number
equals itself. -/
def sameFloat (x y : Binary64) : Bool :=
  x.sameValue y || (x.isNaN && y.isNaN)

mutual

/-- Equality of keys. Numbers are equal by value but an integer never equals a
floating-point number, and the order of entries does not matter. -/
def sameKey : Value → Value → Bool
  | null, null => true
  | bool a, bool b => a == b
  | int a, int b => a == b
  | float a, float b => sameFloat a b
  | string a, string b => a == b
  | sequence a, sequence b => sameItems a b
  | mapping a, mapping b => a.length == b.length && entriesWithin a b
  | tagged s a, tagged t b => s == t && sameKey a b
  | _, _ => false

/-- Equality of sequences of keys. -/
def sameItems : List Value → List Value → Bool
  | [], [] => true
  | a :: as, b :: bs => sameKey a b && sameItems as bs
  | _, _ => false

/-- Whether every entry of the first mapping is in the second. -/
def entriesWithin : List (Value × Value) → List (Value × Value) → Bool
  | [], _ => true
  | (k, v) :: rest, others =>
    (others.any fun other => sameKey k other.1 && sameKey v other.2) &&
      entriesWithin rest others

end

mutual

/-- Whether a tag stands on a tag somewhere. No document can hold that. -/
def hasNestedTag : Value → Bool
  | sequence items => itemsNestTags items
  | mapping entries => entriesNestTags entries
  | tagged _ (tagged _ _) => true
  | tagged _ content => hasNestedTag content
  | _ => false

/-- Whether a tag stands on a tag in one of the items. -/
def itemsNestTags : List Value → Bool
  | [] => false
  | v :: vs => hasNestedTag v || itemsNestTags vs

/-- Whether a tag stands on a tag in one of the entries. -/
def entriesNestTags : List (Value × Value) → Bool
  | [] => false
  | (k, v) :: rest => hasNestedTag k || hasNestedTag v || entriesNestTags rest

end

/-- Whether a value is null. -/
def isNull : Value → Bool
  | null => true
  | _ => false

/-- Whether a key is the given text. -/
def isText (name : String) : Value → Bool
  | string s => s == name
  | _ => false

/-- The entry of a mapping under a text. -/
def find? (entries : List (Value × Value)) (name : String) : Option Value :=
  (entries.find? fun (key, _) => key.isText name).map (·.2)

/-- An optional value, absence being null. -/
def ofOption {α : Type} (f : α → Value) : Option α → Value
  | some a => f a
  | none => null

/-- An unsigned number of 32 bits. -/
def ofUInt32 (n : UInt32) : Value :=
  int n.toNat

/-- An unsigned number of 16 bits. -/
def ofUInt16 (n : UInt16) : Value :=
  int n.toNat

/-- A mapping with texts as keys. -/
def record (entries : List (String × Value)) : Value :=
  mapping (entries.map fun (name, value) => (string name, value))

/-- Replaces the value under a text in a mapping; a new entry goes last. -/
def setEntry (name : String) (value : Value) : List (Value × Value) → List (Value × Value)
  | [] => [(string name, value)]
  | (key, old) :: rest =>
    if key.isText name then (key, value) :: rest else (key, old) :: setEntry name value rest

/-- Replaces the value at a path of names. What is missing or null on the way becomes a
mapping; anything else that is not a mapping is left as it is. -/
def setAt (value : Value) : List String → Value → Value
  | [], _ => value
  | name :: names, mapping entries =>
    mapping (setEntry name (setAt value names ((find? entries name).getD null)) entries)
  | name :: names, null => mapping [(string name, setAt value names null)]
  | _ :: _, other => other

end Value

end RunPlan
