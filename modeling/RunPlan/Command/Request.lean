import RunPlan.Command.Arguments

/-!
# Requests

What a command line asks for. `Request.read` understands arguments: switches that hold
for every command, the name of a command, and what is given to that command.
-/

namespace RunPlan.Command

/-- Which workflow a command works on. -/
structure Selection where
  /-- The file; without it the host's workflow file. -/
  path : Option Path
  /-- Whether variables may override settings. -/
  overrides : Bool
deriving DecidableEq, Repr

/-- A command with what is given to it. -/
inductive Request where
  /-- Reports the problems of a workflow, or sums it up. -/
  | validate (selection : Selection) (quiet : Bool)
  /-- Prints the document with every default filled in. -/
  | print (selection : Selection) (format : OutputFormat) (base : Option Path)
  /-- Prints the evaluations and checkpoints. -/
  | schedule (selection : Selection) (json all : Bool)
  /-- Prints the environments of components. -/
  | environment (selection : Selection) (component : Option Component) (base : Option Path)
      (exports : Bool)
  /-- Creates directories and env files. -/
  | prepare (selection : Selection) (directory envDirectory : Option Path)
  /-- Writes a template. -/
  | create (path : Path) (job : Option String) (overwrite : Bool)
deriving DecidableEq, Repr

/-- The switches of every command. -/
def commonSwitches : List Switch :=
  [⟨"verbose", some 'v', none⟩, ⟨"help", some 'h', none⟩]

/-- The switches before the name of a command. -/
def leadingSwitches : List Switch :=
  commonSwitches ++ [⟨"version", some 'V', none⟩]

/-- The switch of commands that work on a workflow. -/
def selectionSwitches : List Switch :=
  [⟨"no-env", none, none⟩]

/-- The switches of a command; `none` when there is no such command. -/
def switchesOf : String → Option (List Switch)
  | "validate" => some (selectionSwitches ++ [⟨"quiet", some 'q', none⟩])
  | "show" => some <| selectionSwitches ++
      [⟨"format", some 'f', some .format⟩, ⟨"resolve", none, some .path⟩]
  | "schedule" => some <| selectionSwitches ++
      [⟨"json", none, none⟩, ⟨"all", some 'a', none⟩]
  | "env" => some <| selectionSwitches ++
      [⟨"component", some 'c', some .component⟩, ⟨"resolve", none, some .path⟩,
        ⟨"export", none, none⟩]
  | "prepare" => some <| selectionSwitches ++
      [⟨"workdir", some 'w', some .path⟩, ⟨"env-dir", none, some .path⟩]
  | "init" => some
      [⟨"path", some 'p', some .path⟩, ⟨"job", some 'j', some .text⟩,
        ⟨"force", some 'f', none⟩]
  | _ => none

/-- The workflow that is selected. -/
def Given.selection (g : Given) : Selection :=
  ⟨g.operand, !g.has "no-env"⟩

/-- Whether a command takes the path of a workflow as operand. -/
def takesWorkflow (name : String) : Bool :=
  name != "init"

/-- The request for a command; `none` when there is no such command. -/
def requestOf (g : Given) : String → Option Request
  | "validate" => some (.validate g.selection (g.has "quiet"))
  | "show" =>
    some (.print g.selection ((g.format? "format").getD .yaml) (g.path? "resolve"))
  | "schedule" => some (.schedule g.selection (g.has "json") (g.has "all"))
  | "env" => some <|
      .environment g.selection (g.component? "component") (g.path? "resolve") (g.has "export")
  | "prepare" => some (.prepare g.selection (g.path? "workdir") (g.path? "env-dir"))
  | "init" => some <|
      .create ((g.path? "path").getD ⟨"workflow.yml"⟩) (g.text? "job") (g.has "force")
  | _ => none

/-- Whether arguments after `help` name something there is help for. -/
def isHelpTopic : List String → Bool
  | [] => true
  | [name] => name == "help" || (switchesOf name).isSome
  | _ => false

/-- A request, and whether it is to be carried out with more messages. -/
structure Invocation where
  request : Request
  verbose : Bool
deriving DecidableEq, Repr

/-- Reads a command with its arguments. -/
def readCommand (verbose : Bool) (name : String) (arguments : List String) :
    Except Interruption Invocation :=
  match switchesOf name with
  | none => .error (if name = "help" ∧ isHelpTopic arguments then .help else .usage)
  | some switches => do
    let given ← collect (takesWorkflow name) (scan (commonSwitches ++ switches) arguments)
    match requestOf given name with
    | some request => .ok ⟨request, verbose || given.has "verbose"⟩
    | none => .error .usage

/-- Reads the arguments of the program. -/
def Invocation.read (arguments : List String) : Except Interruption Invocation := do
  let leading := arguments.takeWhile isSwitch
  let given ← collect false (scan leadingSwitches leading)
  match arguments.dropWhile isSwitch with
  | name :: rest =>
    if leading.contains "--" then .error .usage
    else readCommand (given.has "verbose") name rest
  | [] => .error .usage

end RunPlan.Command
