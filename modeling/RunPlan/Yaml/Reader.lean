import RunPlan.Yaml.Properties

/-!
# Reading documents

`readDocument` reads the one document of a text as a `Node`. It is a recursive descent:
`flowNode` reads inside brackets, where line ends do not matter; `blockNode` reads
outside, where the column of a token says which collection it belongs to. A node turns
out to be a key when a colon follows it on its line.

Nesting is bounded by fuel, of which a text needs a few units per character
(`readingFuel`), so running out of it never decides.

Which texts can be read at all, and what a duplicate key is, depends on what the document
is for, so the reader takes a `Dialect`.
-/

namespace RunPlan.Yaml

/-- What makes a document unreadable. -/
inductive ReadError where
  | malformed
  /-- A mapping with the same key twice. -/
  | duplicateKey (path : NodePath) (key : Node)

/-- What the reader has to know about a kind of documents. -/
structure Dialect where
  /-- The start of a text, if its characters are allowed. -/
  start? : String → Option Cursor
  /-- Whether a node has a value at all, its parts having one. -/
  accepts : Node → Bool
  /-- Whether two keys are the same. -/
  sameKey : Node → Node → Bool
  /-- Whether the end of the text ends the last line of a block scalar. -/
  endsLine : Bool

/-- A node that has been read, and what follows it. -/
abbrev Reading := Except ReadError (Node × Cursor)

/-- A result, or the failure to read the text. -/
def orMalformed {α : Type} : Option α → Except ReadError α
  | some a => .ok a
  | none => .error .malformed

/-- Ends the reading of a node: names it, and checks that it has a value. -/
def finishNode (d : Dialect) (props : Props) (n : Node) (c : Cursor) : Reading :=
  if d.accepts n then .ok (n, c.closeAnchor props.anchor n) else .error .malformed

/-- A node with properties for which nothing is written. -/
def emptyNode (d : Dialect) (props : Props) (c : Cursor) : Reading :=
  finishNode d props (.scalar (props.tag.filter (· ≠ "!")) true "") c

/-- The state after a scalar. -/
def Cursor.after (c : Cursor) (s : Scanned) : Cursor :=
  { c with rest := s.rest, pos := s.pos, keys := s.newLine }

/-- The node of a scalar. The tag `!` says no more than that it is a scalar. -/
def scalarNode (d : Dialect) (props : Props) (plain : Bool) (s : Scanned) (c : Cursor) :
    Reading :=
  finishNode d props
    (.scalar (props.tag.filter (· ≠ "!")) plain (String.ofList s.text)) (c.after s)

/-- The node that an alias stands for: the latest one with that name. -/
def aliasNode (d : Dialect) (c : Cursor) : Reading :=
  match scanName (c.rest.drop 1) with
  | none => .error .malformed
  | some (name, rest) =>
    match c.anchors.lookup name with
    | none => .error .malformed
    | some target =>
      finishNode d {} (.reference target) ((c.skip (c.rest.length - rest.length)).allowKeys false)

/-- Whether a plain scalar starts here. -/
def startsPlain (flow : Bool) : List Char → Bool
  | [] => false
  | c :: cs =>
    if c = '-' then !atBlank cs
    else if c = '?' ∨ c = ':' then !flow && !atBlank cs
    else !(isBlank c || isBreak c || isFlowMark c ||
      ['#', '&', '*', '!', '|', '>', '\'', '"', '%', '@', '\x60'].contains c)

/-- Reads a plain or quoted scalar; `none` when no scalar starts here. -/
def inlineScalar (d : Dialect) (flow : Bool) (indent : Int) (props : Props) (c : Cursor) :
    Option Reading :=
  let finish (plain : Bool) (s : Option Scanned) : Option Reading :=
    some (orMalformed s >>= fun s => scalarNode d props plain s c)
  match c.rest with
  | '\'' :: cs => finish false (scanSingle [] .none c.pos.next cs)
  | '"' :: cs => finish false (scanDouble .text [] .none c.pos.next cs)
  | _ =>
    if startsPlain flow c.rest then
      finish true (scanPlain flow (indent + 1) [] .none c.pos c.rest)
    else none

/-- Adds an entry to a mapping read so far, unless its key is there. -/
def checkKey (d : Dialect) (path : NodePath) (entries : List (Node × Node)) (key : Node) :
    Except ReadError Unit :=
  if entries.any fun (k, _) => d.sameKey k key then .error (.duplicateKey path key)
  else .ok ()

/-! ### Inside brackets -/

mutual

/-- Reads a node inside brackets at its first token. -/
def flowNode (d : Dialect) (indent : Int) : Nat → NodePath → Cursor → Reading
  | 0, _, _ => .error .malformed
  | fuel + 1, path, c => do
    let (props, c) ← orMalformed (scanProperties true c)
    if c.pos.column == 0 && isMarker c.rest then .error .malformed
    else if c.atChar '*' then
      if props.isEmpty then aliasNode d c else .error .malformed
    else if c.atChar '[' then
      flowSequence d indent fuel path props [] true
        (((c.skip 1).allowKeys true).openAnchor props.anchor)
    else if c.atChar '{' then
      flowMapping d indent fuel path props [] true
        (((c.skip 1).allowKeys true).openAnchor props.anchor)
    else
      match inlineScalar d true indent props c with
      | some reading => reading
      | none => if props.isEmpty then .error .malformed else emptyNode d props c

/-- Reads the rest of a sequence in brackets, the items so far being in reverse. -/
def flowSequence (d : Dialect) (indent : Int) : Nat → NodePath → Props → List Node → Bool →
    Cursor → Reading
  | 0, _, _, _, _, _ => .error .malformed
  | fuel + 1, path, props, items, first, c => do
    let c := c.toToken true
    let finish (c : Cursor) : Reading :=
      finishNode d props (.sequence props.tag items.reverse) ((c.skip 1).allowKeys false)
    if c.atChar ']' then finish c
    else if !first && !c.atChar ',' then .error .malformed
    else
      let c := if first then c else ((c.skip 1).allowKeys true).toToken true
      if !first && c.atChar ']' then finish c
      else
        let here := .index items.length :: path
        let (item, c) ← flowItem d indent fuel here c
        flowSequence d indent fuel path props (item :: items) false c

/-- Reads one item of a sequence in brackets: a node, or a mapping of one entry written
without braces. -/
def flowItem (d : Dialect) (indent : Int) : Nat → NodePath → Cursor → Reading
  | 0, _, _ => .error .malformed
  | fuel + 1, path, c => do
    if c.atChar '?' then
      let (entry, c) ← flowLongEntry d indent fuel path [] ((c.skip 1).allowKeys false)
      return (.mapping none [entry], c)
    else
      let (key, c₁) ← flowNode d indent fuel path c
      let c₁ := c₁.toToken true
      if c₁.atChar ':' && c.keyFrom c₁ then
        let (value, c₂) ← flowValue d indent fuel (key.step :: path)
          ((c₁.skip 1).allowKeys false)
        return (.mapping none [(key, value)], c₂)
      else return (key, c₁)

/-- Reads an entry after its `?`. -/
def flowLongEntry (d : Dialect) (indent : Int) : Nat → NodePath → List (Node × Node) →
    Cursor → Except ReadError ((Node × Node) × Cursor)
  | 0, _, _, _ => .error .malformed
  | fuel + 1, path, entries, c => do
    let c := c.toToken true
    let (key, c) ← if c.atChar ':' then pure (Node.empty, c)
      else flowValue d indent fuel path c
    checkKey d path entries key
    let c := c.toToken true
    if c.atChar ':' then
      let (value, c) ← flowValue d indent fuel (key.step :: path)
        ((c.skip 1).allowKeys false)
      return ((key, value), c)
    else return ((key, Node.empty), c)

/-- Reads a node that may be left out before a comma or a closing bracket. -/
def flowValue (d : Dialect) (indent : Int) : Nat → NodePath → Cursor → Reading
  | 0, _, _ => .error .malformed
  | fuel + 1, path, c =>
    let c := c.toToken true
    if c.atChar ',' || c.atChar ']' || c.atChar '}' then .ok (.empty, c)
    else flowNode d indent fuel path c

/-- Reads the rest of a mapping in braces, the entries so far being in reverse. -/
def flowMapping (d : Dialect) (indent : Int) : Nat → NodePath → Props →
    List (Node × Node) → Bool → Cursor → Reading
  | 0, _, _, _, _, _ => .error .malformed
  | fuel + 1, path, props, entries, first, c => do
    let c := c.toToken true
    let finish (c : Cursor) : Reading :=
      finishNode d props (.mapping props.tag entries.reverse) ((c.skip 1).allowKeys false)
    if c.atChar '}' then finish c
    else if !first && !c.atChar ',' then .error .malformed
    else
      let c := if first then c else ((c.skip 1).allowKeys true).toToken true
      if !first && c.atChar '}' then finish c
      else
        let (entry, c) ← flowEntry d indent fuel path entries c
        flowMapping d indent fuel path props (entry :: entries) false c

/-- Reads one entry of a mapping in braces. -/
def flowEntry (d : Dialect) (indent : Int) : Nat → NodePath → List (Node × Node) →
    Cursor → Except ReadError ((Node × Node) × Cursor)
  | 0, _, _, _ => .error .malformed
  | fuel + 1, path, entries, c => do
    if c.atChar '?' then
      flowLongEntry d indent fuel path entries ((c.skip 1).allowKeys false)
    else
      let (key, c₁) ← flowNode d indent fuel path c
      checkKey d path entries key
      let c₁ := c₁.toToken true
      if c₁.atChar ':' && c.keyFrom c₁ then
        let (value, c₂) ← flowValue d indent fuel (key.step :: path)
          ((c₁.skip 1).allowKeys false)
        return ((key, value), c₂)
      else return ((key, Node.empty), c₁)

end

/-! ### Outside brackets -/

/-- Reads a node on its line: an alias, a scalar or a collection in brackets; `none` when
none of these starts here. -/
def inlineNode (d : Dialect) (fuel : Nat) (path : NodePath) (indent : Int) (props : Props)
    (c : Cursor) : Option Reading :=
  if c.atChar '*' then
    some (if props.isEmpty then aliasNode d c else .error .malformed)
  else if c.atChar '[' then
    some (flowSequence d indent fuel path props [] true
      (((c.skip 1).allowKeys true).openAnchor props.anchor))
  else if c.atChar '{' then
    some (flowMapping d indent fuel path props [] true
      (((c.skip 1).allowKeys true).openAnchor props.anchor))
  else inlineScalar d false indent props c

/-- Reads a key at its first token, up to the colon after it. -/
def blockKey (d : Dialect) (fuel : Nat) (path : NodePath) (indent : Int) (c : Cursor) :
    Reading := do
  let (props, c₁) ← orMalformed (scanProperties false c)
  let (key, c₂) ←
    match inlineNode d fuel path indent props c₁ with
    | some reading => reading
    | none => if props.isEmpty then .error .malformed else emptyNode d props c₁
  let c₂ := c₂.toToken false
  if c₂.atIndicator ':' && c.keyFrom c₂ then .ok (key, c₂) else .error .malformed

mutual

/-- Reads the node after an indicator, in a collection whose tokens stand in column
`indent`. `sameColumn` says whether a sequence may stand in that column, too. -/
def blockNode (d : Dialect) : Nat → NodePath → Int → Bool → Cursor → Reading
  | 0, _, _, _, _ => .error .malformed
  | fuel + 1, path, indent, sameColumn, c =>
    blockContent d fuel path indent sameColumn {} (c.toToken false)

/-- Reads a node at its first token, the properties on the lines before being known. -/
def blockContent (d : Dialect) : Nat → NodePath → Int → Bool → Props → Cursor → Reading
  | 0, _, _, _, _, _ => .error .malformed
  | fuel + 1, path, indent, sameColumn, props, c => do
    let column : Int := c.pos.column
    if c.atEnd || column < indent then emptyNode d props c
    else if c.atIndicator '-' then
      if !c.keys then .error .malformed
      else if indent < column || sameColumn then
        blockSequence d fuel path c.pos.column (indent == column) props []
          (c.openAnchor props.anchor)
      else emptyNode d props c
    else if c.atChar '|' || c.atChar '>' then
      blockScalar d indent props c
    else if column == indent then emptyNode d props c
    else if c.atIndicator '?' then
      if !c.keys then .error .malformed
      else blockMapping d fuel path c.pos.column props [] (c.openAnchor props.anchor)
    else
      let (own, c₁) ← orMalformed (scanProperties false c)
      if !own.isEmpty && c₁.pos.line != c.pos.line then
        let props ← orMalformed (props.merge? own)
        blockContent d fuel path indent sameColumn props c₁
      else if c₁.atChar '|' || c₁.atChar '>' then
        let props ← orMalformed (props.merge? own)
        blockScalar d indent props c₁
      else
        match blockKey d fuel path indent c with
        | .ok (key, c₂) =>
          let c₂ := c₂.openAnchor props.anchor
          let (value, c₃) ← blockNode d fuel (key.step :: path) column true
            ((c₂.skip 1).allowKeys false)
          blockMapping d fuel path c.pos.column props [(key, value)] c₃
        | .error (.duplicateKey p k) => .error (.duplicateKey p k)
        | .error .malformed =>
          let props ← orMalformed (props.merge? own)
          match inlineNode d fuel path indent props c₁ with
          | some reading => reading
          | none => if own.isEmpty then .error .malformed else emptyNode d props c₁

/-- Reads a block scalar at its indicator. -/
def blockScalar (d : Dialect) (indent : Int) (props : Props) (c : Cursor) : Reading := do
  let s ← orMalformed (scanBlock (c.atChar '>') d.endsLine indent c.pos.next (c.rest.drop 1))
  scalarNode d props false s c

/-- Reads the rest of a sequence in a column, the items so far being in reverse. With
`sameColumn` the sequence shares the column with the mapping around it, which goes on
when the items end. -/
def blockSequence (d : Dialect) : Nat → NodePath → Nat → Bool → Props → List Node →
    Cursor → Reading
  | 0, _, _, _, _, _, _ => .error .malformed
  | fuel + 1, path, column, sameColumn, props, items, c => do
    let c := c.toToken false
    let finish : Reading := finishNode d props (.sequence props.tag items.reverse) c
    if c.atEnd || c.pos.column < column then finish
    else if column < c.pos.column then .error .malformed
    else if c.atIndicator '-' && c.keys then
      let (item, c) ← blockNode d fuel (.index items.length :: path) column false
        ((c.skip 1).allowKeys true)
      blockSequence d fuel path column sameColumn props (item :: items) c
    else if sameColumn then finish
    else .error .malformed

/-- Reads the rest of a mapping in a column, the entries so far being in reverse. -/
def blockMapping (d : Dialect) : Nat → NodePath → Nat → Props → List (Node × Node) →
    Cursor → Reading
  | 0, _, _, _, _, _ => .error .malformed
  | fuel + 1, path, column, props, entries, c => do
    let c := c.toToken false
    if c.atEnd || c.pos.column < column then
      finishNode d props (.mapping props.tag entries.reverse) c
    else if column < c.pos.column || !c.keys then .error .malformed
    else if c.atIndicator '?' then
      let (key, c₁) ← blockNode d fuel path column true ((c.skip 1).allowKeys true)
      checkKey d path entries key
      let c₁ := c₁.toToken false
      if c₁.atIndicator ':' && c₁.pos.column == column && c₁.keys then
        let (value, c₂) ← blockNode d fuel (key.step :: path) column true
          ((c₁.skip 1).allowKeys true)
        blockMapping d fuel path column props ((key, value) :: entries) c₂
      else blockMapping d fuel path column props ((key, .empty) :: entries) c₁
    else
      let (key, c₁) ← blockKey d fuel path column c
      checkKey d path entries key
      let (value, c₂) ← blockNode d fuel (key.step :: path) column true
        ((c₁.skip 1).allowKeys false)
      blockMapping d fuel path column props ((key, value) :: entries) c₂

end

/-! ### Documents -/

/-- Fuel for a text: more than its nesting can use. -/
def readingFuel (cs : List Char) : Nat :=
  4 * cs.length + 16

/-- Moves past the end of a line. -/
def Cursor.nextLine (c : Cursor) : Cursor :=
  { c with rest := c.rest.drop 1, pos := c.pos.newline }

/-- Reads the directives before a document; also tells whether there are any. -/
def readDirectives : Nat → Cursor → Except ReadError (Cursor × Bool)
  | 0, _ => .error .malformed
  | fuel + 1, c => do
    let c := c.toToken false
    if c.pos.column == 0 && c.atChar '%' then
      let line := c.rest.takeWhile (!isBreak ·)
      let handles ← orMalformed (readDirective line)
      let after := ((c.skip line.length).allowKeys false).nextLine
      let (c, _) ← readDirectives fuel { after with handles := c.handles ++ handles }
      return (c, true)
    else .ok (c, false)

/-- Whether the cursor stands at a marker of the given character. -/
def Cursor.atMarker (mark : Char) (c : Cursor) : Bool :=
  c.pos.column == 0 && isMarker c.rest && c.atChar mark

/-- Whether nothing but `...` follows a document. -/
def endsStream : Nat → Cursor → Bool
  | 0, _ => false
  | fuel + 1, c =>
    let c := c.toToken false
    c.rest.isEmpty || (c.atMarker '.' && endsStream fuel ((c.skip 3).allowKeys false))

/-- Reads the one document of a text. There is none in a text without any token. -/
def readDocument (d : Dialect) (text : String) : Except ReadError (Option Node) := do
  let start ← orMalformed (d.start? text)
  let fuel := readingFuel start.rest
  let (c, hasDirectives) ← readDirectives fuel start
  if c.atMarker '-' then
    let (n, c) ← blockNode d fuel [] (-1) false ((c.skip 3).allowKeys false)
    if endsStream fuel c then .ok (some n) else .error .malformed
  else if hasDirectives then .error .malformed
  else if c.rest.isEmpty then .ok none
  else if c.atMarker '.' then .error .malformed
  else
    let (n, c) ← blockNode d fuel [] (-1) false c
    if endsStream fuel c then .ok (some n) else .error .malformed

end RunPlan.Yaml
