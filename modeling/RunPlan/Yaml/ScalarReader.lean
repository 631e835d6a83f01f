import RunPlan.Yaml.Cursor

/-!
# Reading scalars

Plain, quoted and block scalars. Each reader walks down the text once, carrying what it
has read in reverse and the `Gap` of blanks and line ends that is still open: a gap
inside a scalar is folded, so that a single line end reads as a blank.

A reader returns `none` when the text is malformed.
-/

namespace RunPlan.Yaml

/-- Blanks and line ends inside a scalar. -/
inductive Gap where
  | none
  /-- Blanks within a line, in reverse. -/
  | blanks (reversed : List Char)
  /-- Line ends: the first one, unless it was escaped, and the following ones in
  reverse. Blanks around line ends do not count. -/
  | breaks (first : Option Char) (reversed : List Char)

namespace Gap

/-- What a gap reads as, in reverse. -/
def folded : Gap → List Char
  | none => []
  | blanks r => r
  | breaks (some '\n') [] => [' ']
  | breaks (some '\n') more => more
  | breaks (some c) more => more ++ [c]
  | breaks Option.none more => more

/-- Whether the gap has a line end. -/
def isBreak : Gap → Bool
  | breaks .. => true
  | _ => false

/-- The gap with one more blank. -/
def addBlank (c : Char) : Gap → Gap
  | none => blanks [c]
  | blanks r => blanks (c :: r)
  | breaks f r => breaks f r

/-- The gap with one more line end. -/
def addBreak (c : Char) : Gap → Gap
  | breaks f r => breaks f (c :: r)
  | _ => breaks (some c) []

end Gap

/-- A scalar that has been read, and the state after it. -/
structure Scanned where
  text : List Char
  /-- Whether a line end was passed at the end, so that a key may start. -/
  newLine : Bool
  pos : Position
  rest : List Char

/-! ### Plain scalars -/

/-- Whether a plain scalar ends before this character. -/
def endsPlain (flow : Bool) (c : Char) (cs : List Char) : Bool :=
  (c == ':' && atBlank cs) || (flow && isFlowMark c)

/-- Whether a colon stands before a character that it cannot precede inside brackets. -/
def isStrayColon (flow : Bool) (c : Char) (cs : List Char) : Bool :=
  flow && c == ':' && cs.head?.any fun d => isFlowMark d || d == '?'

/-- Reads a plain scalar whose continuation lines are indented by at least `indent`. -/
def scanPlain (flow : Bool) (indent : Int) (acc : List Char) :
    Gap → Position → List Char → Option Scanned
  | g, p, [] => some ⟨acc.reverse, g.isBreak, p, []⟩
  | g, p, c :: cs =>
    let stop : Option Scanned := some ⟨acc.reverse, g.isBreak, p, c :: cs⟩
    if isBreak c then scanPlain flow indent acc (g.addBreak c) p.newline cs
    else if isBlank c then
      if g.isBreak && c == '\t' && p.column < indent then none
      else scanPlain flow indent acc (g.addBlank c) p.next cs
    else
      let startsWord := match g with
        | .none => false
        | _ => true
      if startsWord && ((!flow && p.column < indent) ||
          (p.column == 0 && isMarker (c :: cs)) || c == '#') then stop
      else if isStrayColon flow c cs then none
      else if endsPlain flow c cs then stop
      else scanPlain flow indent (c :: (g.folded ++ acc)) .none p.next cs

/-! ### Quoted scalars -/

/-- Reads a single-quoted scalar after its opening quote. -/
def scanSingle (acc : List Char) : Gap → Position → List Char → Option Scanned
  | _, _, [] => none
  | g, p, '\'' :: '\'' :: cs => scanSingle ('\'' :: (g.folded ++ acc)) .none (p.advance 2) cs
  | g, p, c :: cs =>
    if c = '\'' then some ⟨(g.folded ++ acc).reverse, false, p.next, cs⟩
    else if isBreak c then scanSingle acc (g.addBreak c) p.newline cs
    else if isBlank c then scanSingle acc (g.addBlank c) p.next cs
    else if p.column = 0 ∧ isMarker (c :: cs) then none
    else scanSingle (c :: (g.folded ++ acc)) .none p.next cs

/-- The character of an escape with one letter. -/
def simpleEscape : Char → Option Char
  | '0' => some (Char.ofNat 0)
  | 'a' => some (Char.ofNat 7)
  | 'b' => some (Char.ofNat 8)
  | 't' => some '\t'
  | '\t' => some '\t'
  | 'n' => some '\n'
  | 'v' => some (Char.ofNat 0x0B)
  | 'f' => some (Char.ofNat 0x0C)
  | 'r' => some '\r'
  | 'e' => some (Char.ofNat 0x1B)
  | ' ' => some ' '
  | '"' => some '"'
  | '/' => some '/'
  | '\\' => some '\\'
  | 'N' => some (Char.ofNat 0x85)
  | '_' => some (Char.ofNat 0xA0)
  | 'L' => some (Char.ofNat 0x2028)
  | 'P' => some (Char.ofNat 0x2029)
  | _ => none

/-- The number of digits of a numeric escape. -/
def escapeWidth : Char → Option Nat
  | 'x' => some 2
  | 'u' => some 4
  | 'U' => some 8
  | _ => none

/-- Where a double-quoted scalar is being read. -/
inductive QuotedState where
  | text
  /-- After a backslash. -/
  | escape
  /-- In a numeric escape: digits still missing, and the number so far. -/
  | digits (missing value : Nat)

/-- The character with a code, unless the code is that of half a surrogate pair or too
large. -/
def charOfCode? (n : Nat) : Option Char :=
  if n < 0xD800 ∨ (0xDFFF < n ∧ n ≤ 0x10FFFF) then some (Char.ofNat n) else none

/-- Reads a double-quoted scalar after its opening quote. -/
def scanDouble : QuotedState → List Char → Gap → Position → List Char → Option Scanned
  | _, _, _, _, [] => none
  | .escape, acc, _, p, c :: cs =>
    if isBreak c then scanDouble .text acc (.breaks none []) p.newline cs
    else
      match simpleEscape c, escapeWidth c with
      | some e, _ => scanDouble .text (e :: acc) .none p.next cs
      | none, some n => scanDouble (.digits n 0) acc .none p.next cs
      | none, none => none
  | .digits missing value, acc, g, p, c :: cs =>
    match Numeral.digitValue c with
    | none => none
    | some d =>
      if 1 < missing then scanDouble (.digits (missing - 1) (value * 16 + d)) acc g p.next cs
      else
        match charOfCode? (value * 16 + d) with
        | some e => scanDouble .text (e :: acc) .none p.next cs
        | none => none
  | .text, acc, g, p, c :: cs =>
    if c = '"' then some ⟨(g.folded ++ acc).reverse, false, p.next, cs⟩
    else if isBreak c then scanDouble .text acc (g.addBreak c) p.newline cs
    else if isBlank c then scanDouble .text acc (g.addBlank c) p.next cs
    else if p.column = 0 ∧ isMarker (c :: cs) then none
    else if c = '\\' then scanDouble .escape (g.folded ++ acc) .none p.next cs
    else scanDouble .text (c :: (g.folded ++ acc)) .none p.next cs

/-! ### Block scalars -/

/-- What becomes of the line ends after the last line of a block scalar. -/
inductive Chomp where
  | strip
  | clip
  | keep
deriving DecidableEq

/-- The chomping that a character of the header asks for. -/
def chompOf : Char → Option Chomp
  | '-' => some .strip
  | '+' => some .keep
  | _ => none

/-- The indentation that a character of the header asks for. -/
def indentOf (c : Char) : Option Nat :=
  if '1' ≤ c ∧ c ≤ '9' then some (c.toNat - 48) else none

/-- Reads the header of a block scalar: chomping, indentation, and the rest. -/
def scanHeader (cs : List Char) : Chomp × Option Nat × List Char :=
  match cs with
  | a :: rest =>
    match chompOf a, indentOf a with
    | some chomp, _ =>
      match rest with
      | b :: more =>
        match indentOf b with
        | some n => (chomp, some n, more)
        | none => (chomp, none, rest)
      | [] => (chomp, none, rest)
    | none, some n =>
      match rest with
      | b :: more =>
        match chompOf b with
        | some chomp => (chomp, some n, more)
        | none => (.clip, some n, rest)
      | [] => (.clip, some n, rest)
    | none, none => (.clip, none, cs)
  | [] => (.clip, none, cs)

/-- Passes what may follow the header on its line: blanks and a comment. -/
def scanHeaderEnd : (comment : Bool) → Position → List Char → Option (Position × List Char)
  | _, p, [] => some (p, [])
  | comment, p, c :: cs =>
    if isBreak c then some (p.newline, cs)
    else if comment || isBlank c then scanHeaderEnd comment p.next cs
    else if c = '#' then scanHeaderEnd true p.next cs
    else none

/-- The indentation of the first line with text, as far as blank lines do not exceed it.
A tab before it is malformed. -/
def detectIndent : (column largest : Nat) → List Char → Option Nat
  | column, largest, [] => some (max column largest)
  | column, largest, c :: cs =>
    if c = ' ' then detectIndent (column + 1) largest cs
    else if isBreak c then detectIndent 0 (max column largest) cs
    else if c = '\t' then none
    else some (max column largest)

/-- The state of a block scalar. -/
structure BlockState where
  /-- What has been read, in reverse. -/
  acc : List Char := []
  /-- The end of the last line with text. -/
  lineEnd : Option Char := none
  /-- The ends of the empty lines after it, in reverse. -/
  emptyLines : List Char := []
  /-- Whether the last line with text starts with a blank, which keeps its line end. -/
  indented : Bool := false

/-- Starts a line with text: folds the line ends before it. -/
def BlockState.startLine (folds : Bool) (s : BlockState) (c : Char) : BlockState :=
  let between : List Char := match s.lineEnd with
    | none => []
    | some e =>
      if folds && e == '\n' && !s.indented && !isBlank c then
        if s.emptyLines.isEmpty then [' '] else []
      else [e]
  { acc := s.emptyLines ++ between ++ s.acc, indented := isBlank c }

/-- The text of a block scalar. -/
def BlockState.finish (s : BlockState) : Chomp → List Char
  | .strip => s.acc.reverse
  | .clip => (s.lineEnd.toList ++ s.acc).reverse
  | .keep => (s.emptyLines ++ s.lineEnd.toList ++ s.acc).reverse

/-- The state where the text ends: with `endsLine` that ends a line with text, too. -/
def BlockState.atEnd (s : BlockState) (endsLine inText : Bool) : BlockState :=
  if endsLine && inText then { s with lineEnd := some '\n' } else s

/-- Reads the lines of a block scalar with the given indentation. -/
def scanLines (folds endsLine : Bool) (chomp : Chomp) (indent : Nat) :
    (inText : Bool) → BlockState → Position → List Char → Option Scanned
  | inText, s, p, [] => some ⟨(s.atEnd endsLine inText).finish chomp, true, p, []⟩
  | true, s, p, c :: cs =>
    if isBreak c then
      scanLines folds endsLine chomp indent false { s with lineEnd := some c } p.newline cs
    else scanLines folds endsLine chomp indent true { s with acc := c :: s.acc } p.next cs
  | false, s, p, c :: cs =>
    if p.column < indent ∧ c = ' ' then scanLines folds endsLine chomp indent false s p.next cs
    else if p.column < indent ∧ c = '\t' then none
    else if isBreak c then
      scanLines folds endsLine chomp indent false { s with emptyLines := c :: s.emptyLines }
        p.newline cs
    else if p.column = indent then
      let started := s.startLine folds c
      scanLines folds endsLine chomp indent true { started with acc := c :: started.acc }
        p.next cs
    else some ⟨s.finish chomp, true, p, c :: cs⟩

/-- Reads a block scalar after its `|` or `>`, in a collection with the given
indentation. With `endsLine` the end of the text ends its last line. -/
def scanBlock (folds endsLine : Bool) (parent : Int) (p : Position) (cs : List Char) :
    Option Scanned :=
  let (chomp, hint, afterHeader) := scanHeader cs
  match scanHeaderEnd false (p.advance (cs.length - afterHeader.length)) afterHeader with
  | none => none
  | some (pos, rest) =>
    let indent? : Option Nat := match hint with
      | some n => some ((max parent 0).toNat + n)
      | none => (detectIndent 0 0 rest).map fun n => max n (max (parent + 1) 1).toNat
    match indent? with
    | none => none
    | some indent => scanLines folds endsLine chomp indent false {} pos rest

end RunPlan.Yaml
