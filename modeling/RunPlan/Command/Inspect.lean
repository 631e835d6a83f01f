import RunPlan.Command.Outcome
import RunPlan.Command.Request
import RunPlan.Export
import RunPlan.Json
import RunPlan.Workflow.Layered

/-!
# Commands that look at a workflow

`validate`, `print`, `schedule` and `environment` change no file. What they print is a
function of the workflow: `summary`, `planText`, `environmentText`.
-/

namespace RunPlan.Command

/-! ### Loading -/

/-- The file of the selected workflow. -/
def Selection.file (s : Selection) (host : Host) : Except Failure Path :=
  match s.path <|> host.workflowFile? with
  | some p => .ok p
  | none => .error <| .plain
      "No workflow file given and none found (set RLWF_CONFIG or create ./workflow.yml)"

/-- The variables that may override settings. -/
def Selection.environment (s : Selection) (host : Host) : Environment :=
  if s.overrides then host.environment else .empty

/-- Names the file that could not be loaded. -/
def loadFailure (p : Path) (e : WorkflowError) : Failure :=
  .ofWorkflowError ("Failed to load workflow " ++ p.text) e

/-- Reads the workflow of a file, without validating it. -/
def Selection.read (s : Selection) (host : Host) (p : Path) : Except Failure Workflow :=
  (Workflow.readLayered host.files host.here p (s.environment host)).mapError (loadFailure p)

/-- Reads and validates the workflow of a file. -/
def Selection.load (s : Selection) (host : Host) (p : Path) : Except Failure Workflow :=
  (Workflow.loadLayered host.files host.here p (s.environment host)).mapError (loadFailure p)

/-- Loads the selected workflow and prints something about it. -/
def inspect (host : Host) (verbose : Bool) (s : Selection)
    (text : Workflow → Except Failure String) : Outcome :=
  let log := renderLog (defaultThreshold verbose)
  match s.file host with
  | .error f => .failure host.files "" f
  | .ok p =>
    match s.load host p with
    | .error f => .failure host.files (log [loadingLine p]) f
    | .ok w =>
      let stderr := log (loadingLine p :: acceptedLines w)
      match text w with
      | .error f => .failure host.files stderr f
      | .ok stdout => .success host.files stderr stdout

/-! ### `validate` -/

/-- The summary of a workflow, one line per aspect. -/
def summary (w : Workflow) : List String :=
  let count (n : Option UInt32) (absent : String) : String :=
    (n.map Workflow.decimal32).getD absent
  let checkpoints :=
    match w.training.checkpointing with
    | some c => "every " ++ Workflow.decimal32 c.interval ++ " episodes -> " ++ c.path.text
    | none => "disabled"
  let resume :=
    match w.training.loadPath with
    | some p =>
      ["  resume:        " ++ p.text ++ " (episode " ++
        count w.training.loadEpisode "latest" ++ ")"]
    | none => []
  [ "Workflow: " ++ w.job ++ " (" ++ w.training.mode.name ++ " mode)",
    "  scenario_path: " ++ w.scenarioPath.text,
    "  log_path:      " ++ w.logPath.text,
    "  episodes:      " ++ count w.main.numEpisodes "runner default" ++
      " (steps per episode: " ++ count w.main.numSteps "unbounded" ++ ")",
    "  evaluation:    " ++ EvalSchedule.describe w.main.evalSchedule,
    "  checkpoints:   " ++ checkpoints ] ++ resume ++
  [ "  components:    " ++ Text.join ", " (w.components.map (·.name)) ]

/-- Lines of text. -/
def textOfLines (lines : List String) : String :=
  String.join (lines.map (· ++ "\n"))

/-- Reports every problem of the selected workflow, or sums it up. -/
def validate (host : Host) (verbose : Bool) (s : Selection) (quiet : Bool) : Outcome :=
  match s.file host with
  | .error f => .failure host.files "" f
  | .ok p =>
    let log := renderLog (defaultThreshold verbose) [loadingLine p]
    match s.read host p with
    | .error f => .failure host.files log f
    | .ok w =>
      match w.problems with
      | [] =>
        let lines := if quiet then [] else summary w
        .success host.files log (textOfLines (lines ++ ["OK: " ++ p.text]))
      | problems =>
        .failure host.files (log ++ textOfLines (problems.map fun q => "  " ++ q.display)) <|
          .plain (Numeral.ofNat problems.length ++ " problem(s) in " ++ p.text)

/-! ### `print` -/

/-- The workflow with its paths seen from a directory, if there is one. -/
def seenFrom (base : Option Path) (w : Workflow) : Workflow :=
  match base with
  | some p => w.resolvePaths p
  | none => w

/-- The document of a workflow. -/
def documentText (format : OutputFormat) (w : Workflow) : String :=
  match format with
  | .yaml => w.toYaml
  | .json => w.toJson ++ "\n"

/-- Prints the document of the selected workflow. -/
def print (host : Host) (verbose : Bool) (s : Selection) (format : OutputFormat)
    (base : Option Path) : Outcome :=
  inspect host verbose s fun w => .ok (documentText format (seenFrom base w))

/-! ### `schedule` -/

/-- One line of the table of episodes. -/
def tableLine (episode eval checkpoint : String) : String :=
  Text.padLeft 8 episode ++ "  " ++ Text.padRight 8 eval ++ "  " ++
    Text.padRight 10 checkpoint

/-- An episode in the table. -/
def stepLine (step : EpisodeStep) : String :=
  let mark (b : Bool) : String := if b then "yes" else "-"
  tableLine (Workflow.decimal32 step.episode) (mark step.evaluate) (mark step.checkpoint)

/-- The table of a plan: every episode, or those that something follows. -/
def planText (all : Bool) (plan : EpisodePlan) : List String :=
  let header := "Episodes " ++ Workflow.decimal32 plan.firstEpisode ++ "..=" ++
    Workflow.decimal32 plan.lastEpisode ++ " (" ++ Numeral.ofNat plan.len ++ " to run)"
  if plan.isEmpty then [header, "Nothing to run."]
  else
    [header, tableLine "EPISODE" "EVAL" "CHECKPOINT"] ++
      (if all then plan.steps else plan.events).map stepLine

/-- What is known of a run without a last episode. -/
def unboundedText (w : Workflow) : List String :=
  [ "main.num_episodes is null; the runner decides how many episodes to run.",
    "evaluation:  " ++ EvalSchedule.describe w.main.evalSchedule ] ++
  match w.training.checkpointing with
  | some c => ["checkpoints: every " ++ Workflow.decimal32 c.interval ++ " episodes"]
  | none => []

/-- The evaluations and checkpoints of a workflow. -/
def scheduleText (json all : Bool) (w : Workflow) : String :=
  match w.episodePlan with
  | none => textOfLines (unboundedText w)
  | some plan =>
    if json then Json.render plan.toValue ++ "\n" else textOfLines (planText all plan)

/-- Prints the evaluations and checkpoints of the selected workflow. -/
def schedule (host : Host) (verbose : Bool) (s : Selection) (json all : Bool) : Outcome :=
  inspect host verbose s fun w => .ok (scheduleText json all w)

/-! ### `environment` -/

/-- The env file of a component, ready for a shell when exported. -/
def componentText (w : Workflow) (exports : Bool) (c : Component) : String :=
  let env := w.componentEnv c
  if exports then EnvFile.renderExports env else EnvFile.render env

/-- The env files of every component, each under its name. -/
def environmentText (w : Workflow) (exports : Bool) : String :=
  String.join <| w.components.map fun c =>
    "# " ++ c.name ++ "\n" ++ componentText w exports c ++ "\n"

/-- Prints the environments of the selected workflow, or the one of a component. -/
def environment (host : Host) (verbose : Bool) (s : Selection) (component : Option Component)
    (base : Option Path) (exports : Bool) : Outcome :=
  inspect host verbose s fun w =>
    let w := seenFrom base w
    match component with
    | none => .ok (environmentText w exports)
    | some c =>
      if w.components.contains c then .ok (componentText w exports c)
      else .error (.plain ("Component " ++ c.name ++ " is not part of this workflow"))

end RunPlan.Command
