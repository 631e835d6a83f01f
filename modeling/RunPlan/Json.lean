import RunPlan.Value

/-!
# Printing JSON

`Json.render` prints a value as JSON with an indentation of two blanks. A key that is
not a text is printed as the text of its scalar, and a number that is not finite as
`null`.
-/

namespace RunPlan.Json

/-- A character inside a JSON text. -/
def escapeChar (c : Char) : List Char :=
  match c.toNat with
  | 0x22 => ['\\', '"']
  | 0x5C => ['\\', '\\']
  | 0x08 => ['\\', 'b']
  | 0x09 => ['\\', 't']
  | 0x0A => ['\\', 'n']
  | 0x0C => ['\\', 'f']
  | 0x0D => ['\\', 'r']
  | n =>
    if n < 0x20 then
      ['\\', 'u', '0', '0'] ++ (if n < 0x10 then ['0'] else []) ++ Nat.toDigits 16 n
    else [c]

/-- A text between quotes. -/
def quote (text : String) : List Char :=
  ['"'] ++ text.toList.flatMap escapeChar ++ ['"']

/-- The start of a new line. -/
def newLine (indent : Nat) : List Char :=
  '\n' :: List.replicate indent ' '

/-- A scalar. -/
def scalarText : Value → List Char
  | .null => "null".toList
  | .bool b => (if b then "true" else "false").toList
  | .int n => (Numeral.ofInt n).toList
  | .float x => if x.isFinite then x.toScientific.toList else "null".toList
  | .string s => quote s
  | _ => []

/-- A key, always quoted. -/
def keyText : Value → List Char
  | .string s => quote s
  | v => ['"'] ++ scalarText v ++ ['"']

mutual

/-- A value, the lines after its first one being indented. -/
def valueText (indent : Nat) : Value → List Char
  | .sequence [] => ['[', ']']
  | .sequence (v :: vs) =>
    ['['] ++ newLine (indent + 2) ++ valueText (indent + 2) v ++
      itemTexts (indent + 2) vs ++ newLine indent ++ [']']
  | .mapping [] => ['{', '}']
  | .mapping ((k, v) :: rest) =>
    ['{'] ++ newLine (indent + 2) ++ keyText k ++ [':', ' '] ++ valueText (indent + 2) v ++
      entryTexts (indent + 2) rest ++ newLine indent ++ ['}']
  | .tagged _ v => valueText indent v
  | v => scalarText v

/-- Further items of a sequence. -/
def itemTexts (indent : Nat) : List Value → List Char
  | [] => []
  | v :: vs => [','] ++ newLine indent ++ valueText indent v ++ itemTexts indent vs

/-- Further entries of a mapping. -/
def entryTexts (indent : Nat) : List (Value × Value) → List Char
  | [] => []
  | (k, v) :: rest =>
    [','] ++ newLine indent ++ keyText k ++ [':', ' '] ++ valueText indent v ++
      entryTexts indent rest

end

/-- The JSON text of a value. -/
def render (v : Value) : String :=
  String.ofList (valueText 0 v)

end RunPlan.Json
