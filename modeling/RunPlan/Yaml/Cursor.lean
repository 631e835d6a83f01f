import RunPlan.Yaml.Node

/-!
# Reading position

A `Cursor` is what is left of a document together with where that is: line, column and
index decide about indentation and about which nodes can be keys. The text is prepared
first, so that the various line endings become line feeds. The line and paragraph
separators U+2028 and U+2029 also end lines but stay what they are.
-/

namespace RunPlan.Yaml

/-! ### Characters -/

/-- Characters that a document may hold. -/
def isAllowed (c : Char) : Bool :=
  let n := c.toNat
  n == 0x09 || n == 0x0A || n == 0x0D || (0x20 ≤ n && n ≤ 0x7E) || n == 0x85 ||
    (0xA0 ≤ n && n ≤ 0xD7FF) || (0xE000 ≤ n && n ≤ 0xFFFD) || 0x10000 ≤ n

/-- The character U+0085, which ends a line by some rules. -/
def isNextLine (c : Char) : Bool :=
  c.toNat == 0x85

/-- Turns every line ending into a line feed: a carriage return, with a line feed after
it or not, and what else `endsLine` names. -/
def normalizeBreaks (endsLine : Char → Bool) : List Char → List Char
  | [] => []
  | '\r' :: '\n' :: cs => '\n' :: normalizeBreaks endsLine cs
  | c :: cs =>
    (if c = '\r' ∨ endsLine c then '\n' else c) :: normalizeBreaks endsLine cs

/-- Characters that end a line of a prepared text. -/
def isBreak (c : Char) : Bool :=
  c == '\n' || c.toNat == 0x2028 || c.toNat == 0x2029

/-- A blank or a tab. -/
def isBlank (c : Char) : Bool :=
  c == ' ' || c == '\t'

/-- Whether the next character is a blank, a line end or missing. -/
def atBlank : List Char → Bool
  | [] => true
  | c :: _ => isBlank c || isBreak c

/-- Brackets and commas, which end plain scalars inside brackets. -/
def isFlowMark (c : Char) : Bool :=
  c == ',' || c == '[' || c == ']' || c == '{' || c == '}'

/-- Whether a text starts with `---` or `...` standing alone. -/
def isMarker : List Char → Bool
  | '-' :: '-' :: '-' :: cs => atBlank cs
  | '.' :: '.' :: '.' :: cs => atBlank cs
  | _ => false

/-! ### Positions -/

/-- A place in a text. -/
structure Position where
  line : Nat := 0
  column : Nat := 0
  index : Nat := 0
deriving DecidableEq, Repr

/-- The place after a character that does not end the line. -/
def Position.next (p : Position) : Position :=
  { p with column := p.column + 1, index := p.index + 1 }

/-- The place after a line end. -/
def Position.newline (p : Position) : Position :=
  { line := p.line + 1, column := 0, index := p.index + 1 }

/-- The place after several characters of one line. -/
def Position.advance (p : Position) (n : Nat) : Position :=
  { p with column := p.column + n, index := p.index + n }

/-- A named node: the node itself, or `none` while it is being read. -/
abbrev Anchors := List (String × Option Node)

/-- The state of reading. -/
structure Cursor where
  rest : List Char
  pos : Position := {}
  /-- Whether a key may start here. -/
  keys : Bool := true
  /-- The nodes named so far, the latest first. -/
  anchors : Anchors := []
  /-- The tag prefixes that the document declares. -/
  handles : List (String × String) := []

namespace Cursor

/-- Moves past characters of one line. -/
def skip (n : Nat) (c : Cursor) : Cursor :=
  { c with rest := c.rest.drop n, pos := c.pos.advance n }

/-- Sets whether a key may start here. -/
def allowKeys (keys : Bool) (c : Cursor) : Cursor :=
  { c with keys }

/-- Moves to the next token: past blanks, line ends and comments. A tab counts as a
blank where no key may start, and a line end outside brackets lets a key start. -/
def gap (flow : Bool) : (comment keys : Bool) → Position → List Char →
    Bool × Position × List Char
  | _, keys, p, [] => (keys, p, [])
  | comment, keys, p, c :: cs =>
    if isBreak c then gap flow false (keys || !flow) p.newline cs
    else if comment || c == ' ' || (c == '\t' && (flow || !keys)) then
      gap flow comment keys p.next cs
    else if c = '#' then gap flow true keys p.next cs
    else (keys, p, c :: cs)

/-- The cursor at the next token. -/
def toToken (flow : Bool) (c : Cursor) : Cursor :=
  let (keys, pos, rest) := gap flow false c.keys c.pos c.rest
  { c with keys, pos, rest }

/-- Whether a document ends here: at a marker, or at the end of the text. -/
def atEnd (c : Cursor) : Bool :=
  c.rest.isEmpty || (c.pos.column == 0 && isMarker c.rest)

/-- Whether the token here is the given indicator outside brackets, where an indicator
is followed by a blank. -/
def atIndicator (mark : Char) (c : Cursor) : Bool :=
  match c.rest with
  | head :: tail => head == mark && atBlank tail
  | [] => false

/-- Whether the next character is the given one. -/
def atChar (mark : Char) (c : Cursor) : Bool :=
  c.rest.head? == some mark

/-- Whether what was read from `start` up to here can be a key: it started where a key
may start, on this line, not too far away. -/
def keyFrom (start c : Cursor) : Bool :=
  start.keys && start.pos.line == c.pos.line && c.pos.index ≤ start.pos.index + 1024

/-- Announces a named node that is about to be read. -/
def openAnchor (name : Option String) (c : Cursor) : Cursor :=
  match name with
  | some n => { c with anchors := (n, none) :: c.anchors }
  | none => c

/-- Fills in the latest node of a name that was still being read. -/
def fillAnchor (name : String) (node : Node) : Anchors → Anchors
  | [] => [(name, some node)]
  | (other, target) :: rest =>
    if other = name ∧ target.isNone then (name, some node) :: rest
    else (other, target) :: fillAnchor name node rest

/-- Names a node that has been read. A collection has been announced, and what was named
inside it stays later than the collection. -/
def closeAnchor (name : Option String) (node : Node) (c : Cursor) : Cursor :=
  match name, node with
  | none, _ => c
  | some n, .sequence .. | some n, .mapping .. =>
    { c with anchors := fillAnchor n node c.anchors }
  | some n, _ => { c with anchors := (n, some node) :: c.anchors }

end Cursor

end RunPlan.Yaml
