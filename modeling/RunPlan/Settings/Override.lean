import RunPlan.Settings.Document
import RunPlan.Text.Case

/-!
# Overriding settings

Settings come in layers: a document, then the environment. A layer is a list of keys and
values. A key is a path such as `main.num_steps` or `main.eval_schedule[0]`, and letter
case does not matter. Mappings are merged; any other value replaces what was there,
making the way to it where it is missing.

A layer is put over another in the order in which its keys are listed. That this is the
order of the document is a choice: a table of settings has none (see `Order`).
-/

namespace RunPlan.Settings

/-! ### Keys as paths -/

/-- A step from a setting to a part of it. -/
inductive Selector where
  | name (key : String)
  /-- An item of a list, counted from the end when negative. -/
  | item (index : Int)
deriving DecidableEq, Repr

/-- Characters of a name in a path. -/
def isNameChar (c : Char) : Bool :=
  Text.isAlphanumeric c || c == '_' || c == '-' || c == ' '

/-- Drops blanks and tabs. -/
def dropBlanks (cs : List Char) : List Char :=
  cs.dropWhile fun c => c == ' ' || c == '\t'

/-- Reads an index between brackets. -/
def readIndex? (cs : List Char) : Option (Int × List Char) :=
  let cs := dropBlanks cs
  let (negative, cs) := match cs with
    | '-' :: rest => (true, rest)
    | _ => (false, cs)
  let (digits, rest) := cs.span Text.isDigit
  match Numeral.readNat? 10 digits, dropBlanks rest with
  | some n, ']' :: after =>
    if n < 2 ^ 63 then some (if negative then -(n : Int) else n, after) else none
  | _, _ => none

/-- Reads the steps after the first name. The fuel bounds their number. -/
def readSelectors? : Nat → List Char → Option (List Selector)
  | _, [] => some []
  | 0, _ => none
  | fuel + 1, '.' :: cs =>
    let (name, rest) := cs.span isNameChar
    if name.isEmpty then none
    else (.name (String.ofList name) :: ·) <$> readSelectors? fuel rest
  | fuel + 1, '[' :: cs =>
    match readIndex? cs with
    | some (i, rest) => (.item i :: ·) <$> readSelectors? fuel rest
    | none => none
  | _ + 1, _ => none

/-- The path that a key spells. A key that is not a path is a single name. -/
def keyPath (key : String) : List Selector :=
  let cs := key.toList
  let (name, rest) := cs.span isNameChar
  if name.isEmpty then [.name key]
  else
    match readSelectors? cs.length rest with
    | some steps => .name (String.ofList name) :: steps
    | none => [.name key]

/-! ### Setting values -/

/-- The entries of a table; anything else counts as an empty one. -/
def tableEntries : Value → List (Value × Value)
  | .mapping entries => entries
  | _ => []

/-- The items of a list; anything else counts as an empty one. -/
def listItems : Value → List Value
  | .sequence items => items
  | _ => []

mutual

/-- Sets an entry of a table, merging tables. -/
def setChild (name : String) (table : Value) : Value → Value
  | .mapping incoming =>
    let entries := tableEntries table
    let old := (Value.find? entries (Text.toLower name)).getD (.mapping [])
    .mapping (Value.setEntry (Text.toLower name) (setChildren old incoming) entries)
  | v => .mapping (Value.setEntry (Text.toLower name) v (tableEntries table))

/-- Sets several entries of a table. -/
def setChildren (table : Value) : List (Value × Value) → Value
  | [] => table
  | (.string name, v) :: rest => setChildren (setChild name table v) rest
  | _ :: rest => setChildren table rest

end

/-- The place of an index in a list of some length. An index from the end that goes past the
start is taken for the first place; the program has no defined outcome for one. -/
def placeOf (index : Int) (length : Nat) : Nat :=
  if 0 ≤ index then index.toNat else length - index.natAbs

/-- Replaces an item of a list, filling up with null. -/
def setItem (place : Nat) (v : Value) (items : List Value) : List Value :=
  (items ++ List.replicate (place + 1 - items.length) Value.null).set place v

/-- Sets the value at a path. -/
def setPath (v : Value) : List Selector → Value → Value
  | [], _ => v
  | [.name key], root => setChild key root v
  | .name key :: steps, root =>
    let entries := tableEntries root
    let old := (Value.find? entries key).getD .null
    .mapping (Value.setEntry key (setPath v steps old) entries)
  | .item index :: steps, root =>
    let items := listItems root
    let place := placeOf index items.length
    .sequence (setItem place (setPath v steps (items.getD place .null)) items)

/-- Puts a layer over a tree, in the order in which its keys are listed. -/
def overlay (root : Value) (layer : List (String × Value)) : Value :=
  layer.foldl (fun root (key, v) => setPath v (keyPath (Text.toLower key)) root) root

/-! ### Layers -/

/-- The layer of a document. -/
def documentLayer (entries : List (Value × Value)) : List (String × Value) :=
  entries.filterMap fun (key, v) =>
    match key with
    | .string name => some (name, v)
    | _ => none

/-- What the names of overriding variables start with, in lower case. -/
def variablePrefix : String :=
  "rlwf__"

/-- The value of a variable: a boolean, an integer, a floating-point number or a text,
whichever it can be read as first. -/
def variableValue (text : String) : Value :=
  let lower := Text.toLower text
  if lower = "true" then .bool true
  else if lower = "false" then .bool false
  else
    match Numeral.readSigned? 10 text.toList with
    | some n => .int n
    | none =>
      match Binary64.read? text.toList with
      | some x => .float x
      | none => .string text

/-- The setting of a variable, when its name has the prefix. Two underscores stand for
the dot of a path. -/
def variableSetting (name value : String) : Option (String × Value) :=
  (Text.dropPrefix? variablePrefix.toList (Text.toLower name).toList).map fun rest =>
    (Text.replaceAll "__" "." (String.ofList rest), variableValue value)

/-- The layer of the environment. -/
def environmentLayer (overrides : List (String × String)) : List (String × Value) :=
  overrides.filterMap fun (name, value) => variableSetting name value

/-- The settings of a document with an environment over it, both gone through in the order in
which they are listed. -/
def layered (entries : List (Value × Value)) (overrides : List (String × String)) : Value :=
  overlay (overlay (.mapping []) (documentLayer entries)) (environmentLayer overrides)

end RunPlan.Settings
