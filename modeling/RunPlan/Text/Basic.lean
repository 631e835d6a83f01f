/-!
# Texts as lists of characters

Every reader of the library consumes a `List Char`, so that it recurses on what is
left of the text. This module holds what they share: white space, trimming, splitting
at a character, lines, and replacing a word.

`unlines` and `splitLines` are inverse on lines without a line feed, and `splitOnce`
returns the two sides of the first separator.
-/

namespace RunPlan.Text

/-- White space in the Unicode sense (the property `White_Space`). -/
def isWhitespace (c : Char) : Bool :=
  let n := c.toNat
  (9 ≤ n && n ≤ 13) || n == 0x20 || n == 0x85 || n == 0xA0 || n == 0x1680 ||
    (0x2000 ≤ n && n ≤ 0x200A) || n == 0x2028 || n == 0x2029 || n == 0x202F ||
    n == 0x205F || n == 0x3000

/-- An ASCII digit. -/
def isDigit (c : Char) : Bool :=
  '0' ≤ c && c ≤ '9'

/-- An ASCII letter. -/
def isLetter (c : Char) : Bool :=
  ('a' ≤ c && c ≤ 'z') || ('A' ≤ c && c ≤ 'Z')

/-- An ASCII letter or digit. -/
def isAlphanumeric (c : Char) : Bool :=
  isLetter c || isDigit c

/-- ASCII letters in lower case, every other character unchanged. -/
def asciiLower (c : Char) : Char :=
  if 'A' ≤ c && c ≤ 'Z' then Char.ofNat (c.toNat + 32) else c

/-- Drops leading white space. -/
def trimStart (cs : List Char) : List Char :=
  cs.dropWhile isWhitespace

/-- Drops trailing white space. -/
def trimEnd (cs : List Char) : List Char :=
  (cs.reverse.dropWhile isWhitespace).reverse

/-- Drops white space at both ends. -/
def trim (cs : List Char) : List Char :=
  trimEnd (trimStart cs)

/-- What follows `front`, when the text starts with it. -/
def dropPrefix? : List Char → List Char → Option (List Char)
  | [], cs => some cs
  | _ :: _, [] => none
  | p :: ps, c :: cs => if p = c then dropPrefix? ps cs else none

/-- The two sides of the first `separator`, or `none` when there is none. -/
def splitOnce (separator : Char) : List Char → Option (List Char × List Char)
  | [] => none
  | c :: cs =>
    if c = separator then some ([], cs)
    else (splitOnce separator cs).map fun (before, after) => (c :: before, after)

/-- The pieces between the separators; a text without one is a single piece. -/
def splitAll (separator : Char) : List Char → List (List Char)
  | [] => [[]]
  | c :: cs =>
    if c = separator then [] :: splitAll separator cs
    else
      match splitAll separator cs with
      | [] => [[c]]
      | piece :: pieces => (c :: piece) :: pieces

/-- A line without the carriage return that ended it. -/
def dropReturn (line : List Char) : List Char :=
  match line.getLast? with
  | some '\r' => line.dropLast
  | _ => line

/-- The lines of a text. A line ends at a line feed, with a carriage return before it
taken as part of the ending; a last line needs no ending. -/
def splitLines : List Char → List (List Char)
  | cs =>
    match (splitAll '\n' cs).reverse with
    | [] => []
    | last :: before =>
      let ended := before.reverse.map dropReturn
      if last = [] then ended else ended ++ [last]

/-- Lines put together, each ended by a line feed. -/
def unlines (lines : List (List Char)) : List Char :=
  lines.flatMap fun line => line ++ ['\n']

/-- Replaces `word` from left to right, `skip` characters of the current occurrence
being still to drop. -/
def replaceFrom (word new : List Char) : Nat → List Char → List Char
  | _, [] => []
  | skip + 1, _ :: cs => replaceFrom word new skip cs
  | 0, c :: cs =>
    if (dropPrefix? word (c :: cs)).isSome then
      new ++ replaceFrom word new (word.length - 1) cs
    else c :: replaceFrom word new 0 cs

/-- Replaces every occurrence of a non-empty `word`, scanning from left to right. -/
def replaceAll (word new text : String) : String :=
  String.ofList (replaceFrom word.toList new.toList 0 text.toList)

/-- The text padded with blanks on the left to `width` characters. -/
def padLeft (width : Nat) (text : String) : String :=
  String.ofList (List.replicate (width - text.length) ' ') ++ text

/-- The text padded with blanks on the right to `width` characters. -/
def padRight (width : Nat) (text : String) : String :=
  text ++ String.ofList (List.replicate (width - text.length) ' ')

/-- Items joined by a separator. -/
def join (separator : String) (items : List String) : String :=
  separator.intercalate items

end RunPlan.Text
