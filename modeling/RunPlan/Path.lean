import RunPlan.Text.Basic

/-!
# Paths

A `Path` keeps the text it was written with; nothing is normalized. The lexical
operations (`parent`, `fileName`, `stem`, `extension`, `join`, `withFileName`) look at
the text only, never at a file system. Repeated separators, a trailing separator and a
`.` in the middle are passed over, as `parts` shows: two paths with equal parts name the
same file.

A path is a Unicode text. Paths of other bytes, which a host may have, are left out: the
commands show paths as text, and here nothing is lost by that.
-/

namespace RunPlan

/-- A path with `/` as separator. -/
structure Path where
  text : String
deriving DecidableEq, Repr, Inhabited

namespace Path

/-- One step of a path. -/
inductive Part where
  /-- The root directory. -/
  | root
  /-- A leading `.`. -/
  | current
  /-- A `..`. -/
  | up
  /-- An entry of a directory. -/
  | entry (name : String)
deriving DecidableEq, Repr

/-- Whether the path starts at the root. -/
def isAbsolute (p : Path) : Bool :=
  p.text.toList.head? == some '/'

/-- The separator at the start, or a leading `.`: what `pieces` leaves out. -/
def front (p : Path) : List Char :=
  match p.text.toList with
  | '/' :: _ => ['/']
  | ['.'] => ['.']
  | '.' :: '/' :: _ => ['.']
  | _ => []

/-- A piece between separators that is passed over. -/
def isVoid (piece : List Char) : Bool :=
  piece == [] || piece == ['.']

/-- The pieces after `front`, last one first, without void ones at the end. -/
def piecesBack (p : Path) : List (List Char) :=
  (Text.splitAll '/' (p.text.toList.drop p.front.length)).reverse.dropWhile isVoid

/-- The path made of `front` and pieces given last one first. -/
def ofPieces (front : List Char) (back : List (List Char)) : Path :=
  ⟨String.ofList (front ++ ['/'].intercalate (back.dropWhile isVoid).reverse)⟩

/-- The steps of the path. -/
def parts (p : Path) : List Part :=
  let head := match p.front with
    | ['/'] => [.root]
    | ['.'] => [.current]
    | _ => []
  head ++ (p.piecesBack.reverse.filter (!isVoid ·)).map fun piece =>
    if piece = ['.', '.'] then .up else .entry (String.ofList piece)

/-- The path without its last step; none for the root and the empty path. -/
def parent (p : Path) : Option Path :=
  match p.piecesBack with
  | _ :: before => some (ofPieces p.front before)
  | [] => if p.front = ['.'] then some ⟨""⟩ else none

/-- The name of the last step, unless it is the root, `.` or `..`. -/
def fileName (p : Path) : Option String :=
  match p.piecesBack with
  | last :: _ => if last = ['.', '.'] then none else some (String.ofList last)
  | [] => none

/-- Splits a name at its last dot. A name that starts with its only dot is not split. -/
def splitName (name : String) : String × Option String :=
  let back := name.toList.reverse
  let extension := back.takeWhile (· ≠ '.')
  let stem := (back.drop (extension.length + 1)).reverse
  if stem = [] then (name, none)
  else (String.ofList stem, some (String.ofList extension.reverse))

/-- The file name up to its last dot. -/
def stem (p : Path) : Option String :=
  p.fileName.map fun name => (splitName name).1

/-- The file name after its last dot. -/
def extension (p : Path) : Option String :=
  p.fileName.bind fun name => (splitName name).2

/-- The second path seen from the first; an absolute path stands for itself. -/
def join (base p : Path) : Path :=
  if p.isAbsolute ∨ base.text = "" then p
  else if base.text.toList.getLast? = some '/' then ⟨base.text ++ p.text⟩
  else ⟨base.text ++ "/" ++ p.text⟩

/-- Appends one name. -/
def child (base : Path) (name : String) : Path :=
  base.join ⟨name⟩

/-- The path with its file name replaced, or with `name` appended when it has none. -/
def withFileName (p : Path) (name : String) : Path :=
  match p.fileName, p.parent with
  | some _, some parent => parent.child name
  | _, _ => p.child name

/-- The path itself when absolute, otherwise seen from `base`. -/
def resolve (base p : Path) : Path :=
  if p.isAbsolute then p else base.join p

end Path

end RunPlan
