import RunPlan.Command.Reach

/-!
# The command line

The outer layer: looks at the files that a command line can reach, runs it on that
picture, and carries out what changed.
-/

open RunPlan

/-- The path of a location. -/
def locationText (l : Location) : String :=
  "/" ++ "/".intercalate l

/-- What is at a location of the real file system. -/
def observe (l : Location) : IO (Option Entry) := do
  let path := (← IO.currentDir) / locationText l
  if ← path.isDir then
    return some .directory
  try
    let bytes ← IO.FS.readBinFile path
    match String.fromUTF8? bytes with
    | some text => return some (.text text)
    | none => return some (.binary bytes.toList)
  catch _ => return none

/-- A picture of the files along some paths. -/
def picture (here : Location) (paths : List Path) : IO FileSystem := do
  let mut files := FileSystem.empty
  let above := (List.range (here.length + 1)).map here.take
  for l in (above ++ paths.flatMap (Command.visited here)).eraseDups do
    if let some entry ← observe l then
      files := files.put l entry
  return files

/-- The variables of the process. -/
def processVariables : IO Environment := do
  let bytes ← IO.FS.readBinFile "/proc/self/environ"
  let texts := (bytes.toList.splitBy fun a _ => a != 0).filterMap fun piece =>
    String.fromUTF8? ⟨(piece.filter (· != 0)).toArray⟩
  return Environment.ofPairs <| texts.filterMap fun text =>
    (Text.splitOnce '=' text.toList).map fun (name, value) =>
      (String.ofList name, String.ofList value)

/-- Carries out what changed between two pictures. -/
def carryOut (before after : FileSystem) : IO Unit := do
  for (l, entry) in after.entries do
    if before.at? l != some entry then
      match entry with
      | .directory => IO.FS.createDir (locationText l)
      | .text text => IO.FS.writeFile (locationText l) text
      | .binary bytes => IO.FS.writeBinFile (locationText l) ⟨bytes.toArray⟩

/-- Runs a command line in the current directory. -/
def main (arguments : List String) : IO UInt32 := do
  let directory : Path := ⟨(← IO.currentDir).toString⟩
  let environment ← processVariables
  let mut host : Host := ⟨.empty, directory, environment⟩
  for _ in List.range 4 do
    host := { host with files := ← picture host.here (Command.reach host arguments) }
  let outcome := Command.run host arguments
  carryOut host.files outcome.files
  IO.print outcome.stdout
  IO.eprint outcome.stderr
  return outcome.code.toUInt32
