import RunPlan.Yaml.Reader
import RunPlan.Yaml.Scalar

/-!
# Documents as settings

Layered loading reads a document with its own rules for scalars: only `true` and `false`
are booleans, only `null` and `~` are null, integers have 64 bits with a sign, and every
number that can be read is one. The result is a tree whose mappings have texts as keys.
-/

namespace RunPlan.Settings

open Yaml

/-- The spellings of infinities and of what is not a number. These count as numbers but
cannot be read as such. -/
def isSpecialFloat (text : String) : Bool :=
  [".inf", ".Inf", ".INF", "+.inf", "+.Inf", "+.INF", "-.inf", "-.Inf", "-.INF",
    ".nan", ".NaN", ".NAN"].contains text

/-- An integer in one of the prefixed forms. -/
def readPrefixed? : List Char → Option Int
  | '0' :: 'x' :: ds => Numeral.readSigned? 16 ds
  | '0' :: 'o' :: ds => Numeral.readSigned? 8 ds
  | '+' :: ds => Numeral.readSigned? 10 ds
  | _ => none

/-- A floating-point number, which needs a digit. -/
def readFloat? (cs : List Char) : Option Binary64 :=
  if cs.any Text.isDigit then Binary64.read? cs else none

/-- The value of a plain scalar; `none` when it is a number that cannot be read. -/
def plainValue (text : String) : Option Value :=
  let cs := text.toList
  match readPrefixed? cs with
  | some n => some (.int n)
  | none =>
    if text = "" ∨ text = "~" ∨ text = "null" then some .null
    else if text = "true" then some (.bool true)
    else if text = "false" then some (.bool false)
    else
      match Numeral.readSigned? 10 cs with
      | some n => some (.int n)
      | none =>
        if isSpecialFloat text then none
        else
          match readFloat? cs with
          | some x => some (.float x)
          | none => some (.string text)

/-- The value of a plain scalar with a tag that forces its kind. A text that does not fit
counts as null. -/
def coreValue (tag : CoreTag) (text : String) : Option Value :=
  match tag with
  | .bool =>
    some (if text = "true" then .bool true else if text = "false" then .bool false else .null)
  | .int => some (((Numeral.readSigned? 10 text.toList).map Value.int).getD .null)
  | .float =>
    if isSpecialFloat text then none
    else some (((readFloat? text.toList).map Value.float).getD .null)
  | .null => some .null

/-- The value of a scalar. -/
def scalarValue (tag : Option String) (plain : Bool) (text : String) : Option Value :=
  if !plain then some (.string text)
  else
    match tagKind tag with
    | .untagged => plainValue text
    | .core core => coreValue core text
    | _ => some (.string text)

/-- The text of a key. -/
def keyText? (key : Node) : Option String :=
  match key.target with
  | .scalar tag plain text =>
    match scalarValue tag plain text with
    | some (.string s) => some s
    | some (.int n) => some (Numeral.ofInt n)
    | _ => none
  | _ => none

/-- The start of a text, which ends at a null character. Any other character is
allowed. -/
def start (text : String) : Cursor :=
  { rest := normalizeBreaks (fun _ => false) (text.toList.takeWhile (·.toNat ≠ 0)) }

/-- The dialect of layered loading. -/
def dialect : Dialect where
  start? text := some (start text)
  accepts _ := true
  sameKey a b :=
    match keyText? a, keyText? b with
    | some s, some t => s == t
    | _, _ => false
  endsLine := true

mutual

/-- The tree of a node; `none` when a number in it cannot be read or a key is not a
text. Tags of collections do not count. -/
def treeOf : Node → Option Value
  | .scalar tag plain text => scalarValue tag plain text
  | .sequence _ items => (treeItems items).map .sequence
  | .mapping _ entries => (treeEntries entries).map .mapping
  | .reference (some target) => treeOf target
  | .reference none => some .null

/-- The trees of items. -/
def treeItems : List Node → Option (List Value)
  | [] => some []
  | n :: ns =>
    match treeOf n, treeItems ns with
    | some v, some vs => some (v :: vs)
    | _, _ => none

/-- The trees of entries. -/
def treeEntries : List (Node × Node) → Option (List (Value × Value))
  | [] => some []
  | (k, n) :: rest =>
    match keyText? k, treeOf n, treeEntries rest with
    | some key, some v, some vs => some ((.string key, v) :: vs)
    | _, _, _ => none

end

/-- The top-level settings of a text. A text without any token has none; `none` when the
text is not a document of settings. -/
def ofText? (text : String) : Option (List (Value × Value)) :=
  match readDocument dialect text with
  | .error _ => none
  | .ok none => some []
  | .ok (some n) =>
    match treeOf n with
    | some (.mapping entries) => some entries
    | _ => none

end RunPlan.Settings
