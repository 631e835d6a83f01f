import RunPlan.Yaml.Scalar

/-!
# Writing documents

`render` writes a value in block style: two blanks of indentation per mapping, sequences
at the indentation of the key they belong to, no folding of long lines.

A text is written plain where the reader takes the plain scalar for the same text,
otherwise single-quoted, or double-quoted when it holds characters that have to be
escaped. A text with a line feed becomes a literal block where its blanks allow it.
`textStyle` makes the choice; it depends on the text alone.
-/

namespace RunPlan.Yaml

/-! ### Classes of characters -/

/-- Characters that end a line for the writer. -/
def isLineBreak (c : Char) : Bool :=
  c == '\n' || c == '\r' || c.toNat == 0x85 || c.toNat == 0x2028 || c.toNat == 0x2029

/-- Whether the next character is a blank, a line break or missing. -/
def blankFollows : List Char → Bool
  | [] => true
  | c :: _ => c == ' ' || c == '\t' || isLineBreak c

/-- Characters that may be written as they are. -/
def isPrintable (c : Char) : Bool :=
  let n := c.toNat
  n == 0x0A || (0x20 ≤ n && n ≤ 0x7E) || (0xA0 ≤ n && n ≤ 0xD7FF) ||
    (0xE000 ≤ n && n ≤ 0xFFFD && n != 0xFEFF) || 0x10000 ≤ n

/-- Characters that a plain scalar cannot start with. -/
def isIndicator (c : Char) : Bool :=
  ['#', ',', '[', ']', '{', '}', '&', '*', '!', '|', '>', '\'', '"', '%', '@', '\x60'].contains c

/-! ### The style of a text -/

/-- How a text is written. -/
inductive TextStyle where
  | plain
  | singleQuoted
  | doubleQuoted
  | literal
deriving DecidableEq, Repr

/-- Whether a text starts like a document marker. -/
def startsLikeMarker : List Char → Bool
  | '-' :: '-' :: '-' :: _ => true
  | '.' :: '.' :: '.' :: _ => true
  | _ => false

/-- Whether the start of a text would be read as something else. -/
def hasLeadingIndicator : List Char → Bool
  | [] => false
  | c :: cs =>
    isIndicator c || ((c == '-' || c == '?' || c == ':') && blankFollows cs)

/-- Whether a `: ` or ` #` occurs after a character, itself a blank or not. -/
def hasInnerIndicator : Bool → List Char → Bool
  | _, [] => false
  | afterBlank, c :: cs =>
    (c == ':' && blankFollows cs) || (c == '#' && afterBlank) ||
      hasInnerIndicator (c == ' ' || c == '\t' || isLineBreak c) cs

/-- Whether two characters of the given kinds stand side by side. -/
def hasPair (first second : Char → Bool) : List Char → Bool
  | a :: b :: rest => (first a && second b) || hasPair first second (b :: rest)
  | _ => false

/-- A blank. -/
def isSpace (c : Char) : Bool :=
  c == ' '

/-- Whether a text starts or ends with a character of a kind. -/
def startsOrEndsWith (kind : Char → Bool) (cs : List Char) : Bool :=
  cs.head?.any kind || cs.getLast?.any kind

/-- Whether only double quotes can hold a text. -/
def needsEscapes (cs : List Char) : Bool :=
  !cs.all isPrintable || hasPair isSpace isLineBreak cs

/-- Whether the text may be written without quotes as far as its characters go. -/
def allowsPlain (cs : List Char) : Bool :=
  !needsEscapes cs && !startsOrEndsWith isSpace cs && !cs.any isLineBreak &&
    !startsLikeMarker cs && !hasLeadingIndicator cs &&
    !hasInnerIndicator false (cs.drop 1)

/-- Whether the text may be written between single quotes. -/
def allowsSingleQuotes (cs : List Char) : Bool :=
  !needsEscapes cs && !hasPair isLineBreak isSpace cs

/-- Whether the text may be written as a literal block. -/
def allowsLiteral (cs : List Char) : Bool :=
  !needsEscapes cs && !cs.getLast?.any isSpace

/-- Whether a plain scalar with this text is read as this text. -/
def isPlainText (text : String) : Bool :=
  match plainValue text with
  | some (.string _) => !hasLeadingZero text.toList
  | _ => false

/-- The style in which a text is written. -/
def textStyle (text : String) : TextStyle :=
  let cs := text.toList
  if cs.contains '\n' then
    if allowsLiteral cs then .literal else .doubleQuoted
  else if isPlainText text && allowsPlain cs then .plain
  else if allowsSingleQuotes cs then .singleQuoted
  else .doubleQuoted

/-! ### Scalars -/

/-- Blanks. -/
def pad (n : Nat) : List Char :=
  List.replicate n ' '

/-- A hexadecimal number of `width` digits, in upper case. -/
def hexDigits (width n : Nat) : List Char :=
  let digits := (Nat.toDigits 16 n).map Char.toUpper
  List.replicate (width - digits.length) '0' ++ digits

/-- A character between double quotes. -/
def escapeChar (c : Char) : List Char :=
  let n := c.toNat
  match n with
  | 0x00 => ['\\', '0']
  | 0x07 => ['\\', 'a']
  | 0x08 => ['\\', 'b']
  | 0x09 => ['\\', 't']
  | 0x0A => ['\\', 'n']
  | 0x0B => ['\\', 'v']
  | 0x0C => ['\\', 'f']
  | 0x0D => ['\\', 'r']
  | 0x1B => ['\\', 'e']
  | 0x22 => ['\\', '"']
  | 0x5C => ['\\', '\\']
  | 0x85 => ['\\', 'N']
  | 0x2028 => ['\\', 'L']
  | 0x2029 => ['\\', 'P']
  | _ =>
    if isPrintable c then [c]
    else if n ≤ 0xFF then ['\\', 'x'] ++ hexDigits 2 n
    else if n ≤ 0xFFFF then ['\\', 'u'] ++ hexDigits 4 n
    else ['\\', 'U'] ++ hexDigits 8 n

/-- A text between double quotes. -/
def doubleQuoted (cs : List Char) : List Char :=
  ['"'] ++ cs.flatMap escapeChar ++ ['"']

/-- The inside of single quotes. A line break is followed by the indentation. -/
def singleQuotedBody (indent : Nat) : Bool → List Char → List Char
  | afterBreak, [] => if afterBreak then pad indent else []
  | afterBreak, c :: cs =>
    if isLineBreak c then c :: singleQuotedBody indent true cs
    else
      (if afterBreak then pad indent else []) ++
        (if c = '\'' then ['\'', '\''] else [c]) ++ singleQuotedBody indent false cs

/-- A text between single quotes. -/
def singleQuoted (indent : Nat) (cs : List Char) : List Char :=
  ['\''] ++ singleQuotedBody indent false cs ++ ['\'']

/-- The lines of a literal block, each one that is not empty after the indentation. -/
def literalBody (indent : Nat) : Bool → List Char → List Char
  | _, [] => []
  | atStart, c :: cs =>
    if isLineBreak c then c :: literalBody indent true cs
    else (if atStart then pad indent else []) ++ c :: literalBody indent false cs

/-- What the header of a literal block says about its first blanks. -/
def indentHint (cs : List Char) : List Char :=
  if cs.head?.any fun c => isSpace c || isLineBreak c then ['2'] else []

/-- What the header of a literal block says about its last line breaks: `-` for none,
nothing for one, `+` for several or for nothing else. -/
def chompHint (cs : List Char) : List Char :=
  match cs.reverse with
  | [] => ['-']
  | last :: before =>
    if !isLineBreak last then ['-']
    else if before.isEmpty || before.head?.any isLineBreak then ['+']
    else []

/-- A literal block with its header, ended by a line break. -/
def literal (indent : Nat) (cs : List Char) : List Char :=
  ['|'] ++ indentHint cs ++ chompHint cs ++ ['\n'] ++ literalBody indent true cs ++
    (if cs.getLast?.any isLineBreak then [] else ['\n'])

/-- A text and the end of its line, continuation lines being indented. -/
def textLine (indent : Nat) (text : String) : List Char :=
  let cs := text.toList
  match textStyle text with
  | .plain => cs ++ ['\n']
  | .singleQuoted => singleQuoted indent cs ++ ['\n']
  | .doubleQuoted => doubleQuoted cs ++ ['\n']
  | .literal => literal indent cs

/-- A text on one line, as a key. -/
def keyText (text : String) : List Char :=
  let cs := text.toList
  match textStyle text with
  | .plain => cs
  | .singleQuoted => singleQuoted 0 cs
  | .doubleQuoted | .literal => doubleQuoted cs

/-- The text of a scalar that is not a text. -/
def atomText : Value → Option String
  | .null => some "null"
  | .bool b => some (if b then "true" else "false")
  | .int n => some (Numeral.ofInt n)
  | .float x => some (Value.floatText x)
  | _ => none

/-- A key that fits on one line. -/
def simpleKey? : Value → Option (List Char)
  | .string s =>
    if s.toList.any isLineBreak || 128 < s.utf8ByteSize then none else some (keyText s)
  | v => (atomText v).map String.toList

/-! ### Collections -/

/-- What stands before a value on its line. -/
inductive Lead where
  /-- A key: a mapping or sequence starts on the next line. -/
  | key
  /-- The `-` of a sequence item or the `?` of a long key: a collection starts on the same
  line. -/
  | item
deriving DecidableEq

mutual

/-- What follows an indicator: a value in a collection at the given indentation, up to
the end of its last line. -/
def body (indent : Nat) (lead : Lead) : Value → List Char
  | .string s => ' ' :: textLine (indent + 2) s
  | .sequence [] => " []\n".toList
  | .mapping [] => " \x7b\x7d\n".toList
  | .sequence (v :: vs) =>
    match lead with
    | .key => '\n' :: items indent (v :: vs)
    | .item => " -".toList ++ body (indent + 2) .item v ++ items (indent + 2) vs
  | .mapping (e :: es) =>
    match lead with
    | .key => '\n' :: entries (indent + 2) (e :: es)
    | .item => ' ' :: (entry (indent + 2) e ++ entries (indent + 2) es)
  | .tagged tag v => ' ' :: (fullTag tag).toList ++ body indent .key v
  | v => ' ' :: ((atomText v).getD "").toList ++ ['\n']

/-- The items of a sequence, one line or more each. -/
def items (indent : Nat) : List Value → List Char
  | [] => []
  | v :: vs => pad indent ++ '-' :: body indent .item v ++ items indent vs

/-- The entries of a mapping, one line or more each. -/
def entries (indent : Nat) : List (Value × Value) → List Char
  | [] => []
  | e :: es => pad indent ++ entry indent e ++ entries indent es

/-- One entry of a mapping after its indentation. -/
def entry (indent : Nat) : Value × Value → List Char
  | (k, v) =>
    match simpleKey? k with
    | some key => key ++ ':' :: body indent .key v
    | none => '?' :: body indent .item k ++ pad indent ++ ':' :: body indent .item v

end

/-- The document of a value. -/
def render (v : Value) : String :=
  String.ofList <| match v with
    | .mapping (e :: es) => entries 0 (e :: es)
    | .sequence (v :: vs) => items 0 (v :: vs)
    | v => (body 0 .key v).drop 1

end RunPlan.Yaml
