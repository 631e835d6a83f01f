import RunPlan.EnvFile
import RunPlan.FileSystem

/-!
# Hosts

A `Host` is what a command finds around it: files, a current directory and variables.
The module also knows where to look for the two files that nobody has to name: the env
file that adds variables (`Host.withEnvFile`), and the workflow (`Host.workflowFile?`).
-/

namespace RunPlan

/-- What a command finds around it. -/
structure Host where
  files : FileSystem
  /-- The current directory, an absolute path. -/
  directory : Path
  environment : Environment

namespace Host

/-! ### Files seen from the current directory -/

/-- The location of the current directory. -/
def here (host : Host) : Location :=
  ((Text.splitAll '/' host.directory.text.toList).filter (· ≠ [])).map String.ofList

/-- Whether there is anything at a path. -/
def pathExists (host : Host) (p : Path) : Bool :=
  host.files.pathExists host.here p

/-- Whether a path leads to a file. -/
def isFile (host : Host) (p : Path) : Bool :=
  host.files.isFile host.here p

/-- The text of a file. -/
def readText (host : Host) (p : Path) : Except FileFault String :=
  host.files.readText host.here p

/-! ### The directories of the user -/

/-- The home directory. -/
def home? (host : Host) : Option Path :=
  ((host.environment.get? "HOME").filter (· ≠ "")).map Path.mk

/-- The directory of settings: `XDG_CONFIG_HOME` when it is absolute, otherwise `.config`
in the home directory. -/
def configDirectory? (host : Host) : Option Path :=
  match (host.environment.get? "XDG_CONFIG_HOME").map Path.mk with
  | some p => if p.isAbsolute then some p else host.home?.map (·.child ".config")
  | none => host.home?.map (·.child ".config")

/-! ### The env file -/

/-- The path of the env file in the directory of the program. -/
def envFileIn (directory : Path) : Path :=
  directory.child "rlwf.env"

/-- Leaves out a path that names the same file as the one before it. -/
def dropRepeats : List Path → List Path
  | p :: q :: rest =>
    if p.parts = q.parts then dropRepeats (p :: rest) else p :: dropRepeats (q :: rest)
  | short => short
termination_by paths => paths.length

/-- Where the env file may be, in the order of search. -/
def envFileCandidates (host : Host) : List Path :=
  let configured := host.configDirectory?.map fun p => envFileIn (p.child "rlwf")
  let atHome := host.home?.map fun p => envFileIn ((p.child ".config").child "rlwf")
  dropRepeats ([envFileIn ⟨"/usr/local/etc/rlwf"⟩] ++ configured.toList ++ atHome.toList)

/-- The env file with its assignments: the first candidate that is a file, if it holds
text. -/
def envFile? (host : Host) : Option (Path × List (String × String)) :=
  match host.envFileCandidates.find? host.isFile with
  | none => none
  | some p =>
    match host.readText p with
    | .ok text => some (p, EnvFile.parse text)
    | .error _ => none

/-- The host with the variables of the env file, which replace none. -/
def withEnvFile (host : Host) : Host :=
  match host.envFile? with
  | some (_, pairs) => { host with environment := (host.environment.applyPairs pairs).1 }
  | none => host

/-! ### The workflow file -/

/-- Where the workflow may be when nobody names it, in the order of search. -/
def workflowCandidates (host : Host) : List Path :=
  ((host.environment.get? "RLWF_CONFIG").map Path.mk).toList ++ [⟨"workflow.yml"⟩] ++
    (host.home?.map fun p =>
      ((p.child ".config").child "rlwf").child "workflow.yml").toList

/-- The workflow file: the first candidate that exists. -/
def workflowFile? (host : Host) : Option Path :=
  host.workflowCandidates.find? host.pathExists

end Host

end RunPlan
