import RunPlan.Path

/-!
# File systems

A `FileSystem` is a value: which paths from the root are directories or files, and what
the files hold. Paths are followed step by step as an operating system does, so that
`missing/../file` does not exist and `file/..` fails. The operations return the file
system after them, and a `FileFault` when they fail; `createDirAll` may leave part of
its work behind.

There are directories and files, and nothing else: no links, devices or pipes, and no
permissions. What may be written is written as a whole: a full disk and a write that stops
in the middle are left out.
-/

namespace RunPlan

/-- Why an operation on files fails. -/
inductive FileFault where
  | notFound
  | alreadyExists
  | notADirectory
  | isADirectory
  | invalidText
deriving DecidableEq, Repr

/-- The fault as the operating system reports it. -/
def FileFault.message : FileFault → String
  | notFound => "No such file or directory (os error 2)"
  | alreadyExists => "File exists (os error 17)"
  | notADirectory => "Not a directory (os error 20)"
  | isADirectory => "Is a directory (os error 21)"
  | invalidText => "stream did not contain valid UTF-8"

/-- What a path names. -/
inductive Entry where
  | directory
  /-- A file that holds text. -/
  | text (contents : String)
  /-- A file whose bytes are not text. -/
  | binary (bytes : List UInt8)
deriving DecidableEq, Repr

/-- The names from the root to a file or directory. -/
abbrev Location := List String

/-- Files and directories by location. The root is always a directory. -/
structure FileSystem where
  entries : List (Location × Entry)
deriving Repr

/-- Where a path leads. -/
inductive Target where
  | existing (location : Location) (entry : Entry)
  /-- A name that its directory does not hold; whether a separator follows it. -/
  | missing (location : Location) (separator : Bool)

namespace FileSystem

/-- The file system with nothing in it. -/
def empty : FileSystem :=
  ⟨[]⟩

/-- What is at a location. -/
def at? (fs : FileSystem) (location : Location) : Option Entry :=
  if location = [] then some .directory else fs.entries.lookup location

/-- Puts an entry at a location, replacing what was there. -/
def put (fs : FileSystem) (location : Location) (entry : Entry) : FileSystem :=
  ⟨fs.entries.filter (·.1 ≠ location) ++ [(location, entry)]⟩

/-- Whether nothing but separators is left of a path. -/
def onlySeparators (names : List (List Char)) : Bool :=
  names.all (· == [])

/-- Follows the names of a path from a location. -/
def follow (fs : FileSystem) : Location → List (List Char) → Except FileFault Target
  | here, [] =>
    match fs.at? here with
    | some entry => .ok (.existing here entry)
    | none => .error .notFound
  | here, name :: names =>
    match fs.at? here with
    | none => .error .notFound
    | some .directory =>
      if Path.isVoid name then follow fs here names
      else if name = ['.', '.'] then follow fs here.dropLast names
      else
        let next := here ++ [String.ofList name]
        if (fs.at? next).isSome then follow fs next names
        else if onlySeparators names then .ok (.missing next (!names.isEmpty))
        else .error .notFound
    | some _ => .error .notADirectory

/-- Where a path leads, relative paths from `current`. -/
def resolve (fs : FileSystem) (current : Location) (p : Path) : Except FileFault Target :=
  if p.text = "" then .error .notFound
  else follow fs (if p.isAbsolute then [] else current) (Text.splitAll '/' p.text.toList)

/-- Whether there is anything at a path. -/
def pathExists (fs : FileSystem) (current : Location) (p : Path) : Bool :=
  match fs.resolve current p with
  | .ok (.existing ..) => true
  | _ => false

/-- Whether a path leads to a directory. -/
def isDirectory (fs : FileSystem) (current : Location) (p : Path) : Bool :=
  match fs.resolve current p with
  | .ok (.existing _ .directory) => true
  | _ => false

/-- Whether a path leads to a file. -/
def isFile (fs : FileSystem) (current : Location) (p : Path) : Bool :=
  match fs.resolve current p with
  | .ok (.existing _ .directory) => false
  | .ok (.existing ..) => true
  | _ => false

/-- The text of a file. -/
def readText (fs : FileSystem) (current : Location) (p : Path) : Except FileFault String :=
  match fs.resolve current p with
  | .error fault => .error fault
  | .ok (.missing ..) => .error .notFound
  | .ok (.existing _ .directory) => .error .isADirectory
  | .ok (.existing _ (.binary _)) => .error .invalidText
  | .ok (.existing _ (.text contents)) => .ok contents

/-- Creates a directory in an existing one. -/
def createDir (fs : FileSystem) (current : Location) (p : Path) :
    Except FileFault FileSystem :=
  match fs.resolve current p with
  | .error fault => .error fault
  | .ok (.existing ..) => .error .alreadyExists
  | .ok (.missing location _) => .ok (fs.put location .directory)

/-- Creates a directory and the directories above it. The fuel bounds the number of
directories. -/
def createDirAllFrom : Nat → FileSystem → Location → Path → FileSystem × Option FileFault
  | 0, fs, _, _ => (fs, some .notFound)
  | fuel + 1, fs, current, p =>
    if p.text = "" then (fs, none)
    else
      match fs.createDir current p with
      | .ok fs => (fs, none)
      | .error .notFound =>
        match p.parent with
        | none => (fs, some .notFound)
        | some parent =>
          match createDirAllFrom fuel fs current parent with
          | (fs, some fault) => (fs, some fault)
          | (fs, none) =>
            match fs.createDir current p with
            | .ok fs => (fs, none)
            | .error fault => (fs, if fs.isDirectory current p then none else some fault)
      | .error fault => (fs, if fs.isDirectory current p then none else some fault)

/-- Creates a directory and the directories above it, as far as they are missing. -/
def createDirAll (fs : FileSystem) (current : Location) (p : Path) :
    FileSystem × Option FileFault :=
  createDirAllFrom (p.text.length + 1) fs current p

/-- Writes a file, creating or replacing it. -/
def writeText (fs : FileSystem) (current : Location) (p : Path) (contents : String) :
    Except FileFault FileSystem :=
  match fs.resolve current p with
  | .error fault => .error fault
  | .ok (.existing _ .directory) => .error .isADirectory
  | .ok (.existing location _) => .ok (fs.put location (.text contents))
  | .ok (.missing location separator) =>
    if separator then .error .isADirectory else .ok (fs.put location (.text contents))

/-- Appends to a file, creating it when it is missing. -/
def appendText (fs : FileSystem) (current : Location) (p : Path) (contents : String) :
    Except FileFault FileSystem :=
  match fs.resolve current p with
  | .error fault => .error fault
  | .ok (.existing _ .directory) => .error .isADirectory
  | .ok (.existing location (.text before)) =>
    .ok (fs.put location (.text (before ++ contents)))
  | .ok (.existing location (.binary before)) =>
    .ok (fs.put location (.binary (before ++ contents.toUTF8.toList)))
  | .ok (.missing location separator) =>
    if separator then .error .isADirectory else .ok (fs.put location (.text contents))

end FileSystem

end RunPlan
