import RunPlan.Environment
import RunPlan.Text.Basic

/-!
# Env files

An env file holds one `NAME=value` per line. `render` writes an environment and `parse`
reads a text back. A value is quoted when it holds white space or one of the characters
that mean something to the reader; between double quotes, `\"` and `\\` stand for the
second character, and a single-quoted value is taken literally.
-/

namespace RunPlan.EnvFile

open Text

/-! ### Reading -/

/-- Undoes the escapes `\"` and `\\`; any other backslash stands for itself. -/
def unescape : List Char → List Char
  | '\\' :: '"' :: cs => '"' :: unescape cs
  | '\\' :: '\\' :: cs => '\\' :: unescape cs
  | c :: cs => c :: unescape cs
  | [] => []

/-- The text between two `quote` characters at the ends. -/
def between? (quote : Char) (value : List Char) : Option (List Char) :=
  match value with
  | first :: second :: rest =>
    if first = quote ∧ (second :: rest).getLast? = some quote then
      some (second :: rest).dropLast
    else none
  | _ => none

/-- The value that a trimmed text stands for. -/
def unquote (value : List Char) : List Char :=
  match between? '\'' value with
  | some inner => inner
  | none =>
    match between? '"' value with
    | some inner => unescape inner
    | none => value

/-- The assignment on a line. Blank lines, comments and lines without a name have
none. -/
def parseLine (line : List Char) : Option (String × String) :=
  let line := trim line
  if line = [] ∨ line.head? = some '#' then none
  else
    let line := (dropPrefix? "export ".toList line).getD line
    match splitOnce '=' line with
    | none => none
    | some (name, value) =>
      let name := trim name
      if name = [] then none
      else some (String.ofList name, String.ofList (unquote (trim value)))

/-- The assignments of a text, in order. -/
def parse (text : String) : List (String × String) :=
  (splitLines text.toList).filterMap parseLine

/-! ### Writing -/

/-- Whether a character calls for quotes. -/
def needsQuotes (c : Char) : Bool :=
  isWhitespace c || c == '#' || c == '"' || c == '\'' || c == '\\'

/-- A character between double quotes. -/
def escapeChar (c : Char) : List Char :=
  if c = '"' ∨ c = '\\' then ['\\', c] else [c]

/-- A value as it is written. -/
def quoteValue (value : List Char) : List Char :=
  if value.any needsQuotes then ['"'] ++ value.flatMap escapeChar ++ ['"'] else value

/-- The line of one variable. -/
def renderLine (name value : String) : List Char :=
  name.toList ++ ['='] ++ quoteValue value.toList

/-- The text of an environment, one line per variable. -/
def render (env : Environment) : String :=
  String.ofList (unlines (env.map fun (name, value) => renderLine name value))

/-- The text of an environment with `export ` before every line. -/
def renderExports (env : Environment) : String :=
  String.ofList <| unlines <|
    (splitLines (render env).toList).map fun line => "export ".toList ++ line

end RunPlan.EnvFile
