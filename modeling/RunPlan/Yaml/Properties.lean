import RunPlan.Yaml.ScalarReader

/-!
# Anchors, tags and directives

What stands before a node or a document: `&name` names a node, `!tag` gives it a tag,
and directives before the first `---` declare tag prefixes.
-/

namespace RunPlan.Yaml

/-- The properties of a node. -/
structure Props where
  anchor : Option String := none
  tag : Option String := none

namespace Props

/-- Whether nothing is given. -/
def isEmpty (p : Props) : Bool :=
  p.anchor.isNone && p.tag.isNone

/-- Two sets of properties together; neither an anchor nor a tag can be given twice. -/
def merge? (p q : Props) : Option Props :=
  if (p.anchor.isSome && q.anchor.isSome) || (p.tag.isSome && q.tag.isSome) then none
  else some ⟨p.anchor.or q.anchor, p.tag.or q.tag⟩

end Props

/-- Characters of names. -/
def isNameChar (c : Char) : Bool :=
  Text.isAlphanumeric c || c == '_' || c == '-'

/-- Characters that may follow the name of an anchor without a blank. -/
def followsName : List Char → Bool
  | [] => true
  | c :: cs => atBlank (c :: cs) || ['?', ':', ',', ']', '}', '%', '@', '\x60'].contains c

/-- Reads the name after `&` or `*`. -/
def scanName (cs : List Char) : Option (String × List Char) :=
  let (name, rest) := cs.span isNameChar
  if name.isEmpty || !followsName rest then none else some (String.ofList name, rest)

/-- Characters of a tag. -/
def isTagChar (c : Char) : Bool :=
  isNameChar c || [';', '/', '?', ':', '@', '&', '=', '+', '$', '.', '%', '!', '~', '*',
    '\'', '(', ')'].contains c

/-- Characters of a tag between `!<` and `>`. -/
def isVerbatimChar (c : Char) : Bool :=
  isTagChar c || c == ',' || c == '[' || c == ']'

/-- Replaces escapes `%XX`, for single bytes, by the characters they stand for. -/
def unescapeTag : List Char → Option (List Char)
  | [] => some []
  | '%' :: a :: b :: cs =>
    match Numeral.digitValue a, Numeral.digitValue b with
    | some x, some y =>
      if x * 16 + y < 0x80 then (Char.ofNat (x * 16 + y) :: ·) <$> unescapeTag cs else none
    | _, _ => none
  | c :: cs => if c = '%' then none else (c :: ·) <$> unescapeTag cs

/-- The prefix that a tag handle stands for. -/
def handlePrefix? (handles : List (String × String)) (handle : String) : Option String :=
  match handles.lookup handle with
  | some p => some p
  | none =>
    if handle = "!" then some "!"
    else if handle = "!!" then some "tag:yaml.org,2002:"
    else none

/-- Whether a tag may end before this text. -/
def endsTag (flow : Bool) (cs : List Char) : Bool :=
  atBlank cs || (flow && cs.head? == some ',')

/-- The tag of a handle and a suffix. -/
def fullTagOf (handles : List (String × String)) (handle suffix : List Char) :
    Option String :=
  match handlePrefix? handles (String.ofList handle), unescapeTag suffix with
  | some p, some s => some (p ++ String.ofList s)
  | _, _ => none

/-- Reads a tag after its `!`. -/
def scanTag (handles : List (String × String)) (flow : Bool) (cs : List Char) :
    Option (String × List Char) :=
  let result : Option (Option String × List Char) :=
    match cs with
    | '<' :: inner =>
      let (uri, rest) := inner.span isVerbatimChar
      match rest with
      | '>' :: after =>
        if uri.isEmpty then none
        else some ((unescapeTag uri).map String.ofList, after)
      | _ => none
    | _ =>
      let (name, rest) := cs.span isNameChar
      match rest with
      | '!' :: more =>
        let (suffix, after) := more.span isTagChar
        if suffix.isEmpty then none
        else some (fullTagOf handles ('!' :: name ++ ['!']) suffix, after)
      | _ =>
        let (suffix, after) := cs.span isTagChar
        if suffix.isEmpty then some (some "!", after)
        else some (fullTagOf handles ['!'] suffix, after)
  match result with
  | some (some tag, after) => if endsTag flow after then some (tag, after) else none
  | _ => none

/-- Reads one property at a cursor that stands before `&` or `!`. -/
def scanProperty (flow : Bool) (c : Cursor) : Option (Props × Cursor) :=
  let finish (props : Props) (rest : List Char) : Option (Props × Cursor) :=
    some (props, (c.skip (c.rest.length - rest.length)).allowKeys false)
  match c.rest with
  | '&' :: cs =>
    match scanName cs with
    | some (name, rest) => finish { anchor := some name } rest
    | none => none
  | '!' :: cs =>
    match scanTag c.handles flow cs with
    | some (tag, rest) => finish { tag := some tag } rest
    | none => none
  | _ => none

/-- Whether a property starts here. -/
def Cursor.atProperty (c : Cursor) : Bool :=
  c.atChar '&' || c.atChar '!'

/-- Reads the properties that start on one line, at most two. -/
def scanProperties (flow : Bool) (c : Cursor) : Option (Props × Cursor) :=
  if !c.atProperty then some ({}, c)
  else
    match scanProperty flow c with
    | none => none
    | some (first, c₁) =>
      let c₁ := c₁.toToken flow
      if (!flow && c₁.pos.line != c.pos.line) || !c₁.atProperty then some (first, c₁)
      else
        match scanProperty flow c₁ with
        | none => none
        | some (second, c₂) => (first.merge? second).map fun props => (props, c₂.toToken flow)

/-! ### Directives -/

/-- Splits a line into words. -/
def splitWords (line : List Char) : List (List Char) :=
  (Text.splitAll ' ' (line.map fun c => if c = '\t' then ' ' else c)).filter (· ≠ [])

/-- Words up to a comment. -/
def dropComment (words : List (List Char)) : List (List Char) :=
  words.takeWhile fun w => w.head? ≠ some '#'

/-- Reads one directive: the version, or a tag prefix. -/
def readDirective (line : List Char) : Option (List (String × String)) :=
  match dropComment (splitWords line) with
  | [name, version] =>
    if name = "%YAML".toList ∧ (version = "1.1".toList ∨ version = "1.2".toList) then some []
    else none
  | [name, handle, uri] =>
    if name = "%TAG".toList ∧ handle.head? = some '!' ∧ handle.getLast? = some '!' then
      (unescapeTag uri).map fun u => [(String.ofList handle, String.ofList u)]
    else none
  | _ => none

end RunPlan.Yaml
