import RunPlan.Command.Inspect

/-!
# Preparing a run

`prepare` creates the directories that a run writes to and an env file for each of its
components. It logs to the log file of the run, at the levels of the workflow. The work
is a list of `Step`s; the first one that fails ends it, and what was done before stays.
-/

namespace RunPlan.Command

/-- What has been done so far. -/
structure Progress where
  files : FileSystem
  log : List LogLine

/-- A part of the work: the progress after it, and the failure that ended it. -/
abbrev Step := Progress → Progress × Option Failure

namespace Progress

/-- Adds a message. -/
def say (p : Progress) (level : LogLevel) (text : String) : Progress :=
  { p with log := p.log ++ [⟨level, text⟩] }

end Progress

/-- Takes steps up to the first one that fails. -/
def takeSteps : List Step → Step
  | [], p => (p, none)
  | step :: steps, p =>
    match step p with
    | (p, none) => takeSteps steps p
    | (p, some f) => (p, some f)

/-! ### The log file -/

/-- The files with the log file in place, and its path. It is created when missing,
with the directories above it. The program has no message for a log file that cannot be
opened, where it ends abnormally; here that is a failure like the others. -/
def openLog (files : FileSystem) (here : Location) (p : Path) :
    FileSystem × Except Failure Path :=
  match p.fileName with
  | none => (files, .error (.plain ("Log path " ++ p.text ++ " has no file name")))
  | some name =>
    let directory := (p.parent.filter (·.text ≠ "")).getD ⟨"."⟩
    match files.createDirAll here directory with
    | (files, some fault) =>
      (files, .error (.ofFault ("Failed to create log directory " ++ directory.text) fault))
    | (files, none) =>
      let file := directory.child name
      match files.appendText here file "" with
      | .ok files => (files, .ok file)
      | .error fault =>
        (files, .error (.ofFault ("Failed to open log file " ++ file.text) fault))

/-! ### Steps -/

/-- Refuses a workflow with a problem. -/
def acceptStep (w : Workflow) : Step := fun p =>
  match w.validate with
  | .error e => (p, some (.ofWorkflowError "Invalid workflow" e))
  | .ok _ => ({ p with log := p.log ++ acceptedLines w }, none)

/-- Announces the work. -/
def announceStep (run : Workflow) (directory : Path) : Step := fun p =>
  (p.say .info ("Preparing workflow '" ++ run.job ++ "' in " ++ directory.text), none)

/-- Warns of an input that does not exist. -/
def inputStep (here : Location) (setting : String) (input : Path) : Step := fun p =>
  if p.files.pathExists here input then (p, none)
  else (p.say .warn (setting ++ " " ++ input.text ++ " does not exist"), none)

/-- Creates a directory and the directories above it. -/
def directoryStep (here : Location) (directory : Path) : Step := fun p =>
  match p.files.createDirAll here directory with
  | (files, some fault) =>
    (⟨files, p.log⟩, some (.ofFault ("Failed to create directory " ++ directory.text) fault))
  | (files, none) => (⟨files, p.log⟩, none)

/-- Creates a directory and says so. -/
def requiredDirStep (here : Location) (directory : Path) : Step :=
  takeSteps
    [ directoryStep here directory,
      fun p => (p.say .info ("Created " ++ directory.text), none) ]

/-- The env file of a component. -/
def envFileOf (envDirectory : Path) (c : Component) : Path :=
  envDirectory.child (c.name ++ ".env")

/-- Writes the env file of a component. -/
def envFileStep (here : Location) (envDirectory : Path) (c : Component) (env : Environment) :
    Step := fun p =>
  let file := envFileOf envDirectory c
  match p.files.writeText here file (EnvFile.render env) with
  | .error fault => (p, some (.ofFault ("Failed to write " ++ file.text) fault))
  | .ok files =>
    let written : Progress := ⟨files, p.log⟩
    (written.say .debug ("Wrote " ++ file.text ++ " (" ++ Numeral.ofNat env.length ++
      " variables)"), none)

/-- Says how many env files there are. -/
def finishStep (run : Workflow) (envDirectory : Path) : Step := fun p =>
  (p.say .info ("Wrote " ++ Numeral.ofNat run.components.length ++ " env file(s) to " ++
    envDirectory.text), none)

/-- The work for the workflow `w` whose paths are resolved in `run`. -/
def prepareSteps (here : Location) (w run : Workflow) (directory envDirectory : Path) :
    List Step :=
  [ acceptStep w, announceStep run directory,
    inputStep here "scenario_path" run.scenarioPath ] ++
  (run.training.loadPath.map (inputStep here "training.load_path")).toList ++
  run.requiredDirs.map (requiredDirStep here) ++
  [directoryStep here envDirectory] ++
  (run.envByComponent.map fun (c, env) => envFileStep here envDirectory c env) ++
  [finishStep run envDirectory]

/-! ### The command -/

/-- Where env files go unless a directory is given: next to the log file. -/
def defaultEnvDirectory (run : Workflow) : Path :=
  (run.logPath.parent.getD ⟨"."⟩).child "env"

/-- Prepares a run of a workflow in a directory. -/
def prepareIn (host : Host) (verbose : Bool) (w : Workflow) (directory : Path)
    (envDirectory : Option Path) : Outcome :=
  let run := w.resolvePaths directory
  match openLog host.files host.here run.logPath with
  | (files, .error f) => .failure files "" f
  | (files, .ok logFile) =>
    let envDirectory := envDirectory.getD (defaultEnvDirectory run)
    let (done, failed) :=
      takeSteps (prepareSteps host.here w run directory envDirectory) ⟨files, []⟩
    let logged := renderLog run.main.logging.file done.log
    let files := (done.files.appendText host.here logFile logged).toOption.getD done.files
    let threshold := if verbose then .debug else run.main.logging.stdout
    let stderr := renderLog threshold done.log
    match failed with
    | some f => .failure files stderr f
    | none =>
      .success files stderr <|
        textOfLines (run.components.map fun c => (envFileOf envDirectory c).text)

/-- Prepares a run of the selected workflow, in the current directory unless another one
is given. -/
def prepare (host : Host) (verbose : Bool) (s : Selection)
    (directory envDirectory : Option Path) : Outcome :=
  match s.file host with
  | .error f => .failure host.files "" f
  | .ok p =>
    match s.read host p with
    | .error f => .failure host.files "" f
    | .ok w => prepareIn host verbose w (directory.getD host.directory) envDirectory

end RunPlan.Command
