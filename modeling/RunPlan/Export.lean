import RunPlan.Component
import RunPlan.EnvFile
import RunPlan.Number.Decimal
import RunPlan.Schedule

/-!
# What a workflow tells its processes

Each component gets its part of the workflow as environment variables
(`Workflow.componentEnv`) and writes its own log file (`Workflow.logFile`). Paths stay
as the document writes them until `Workflow.resolvePaths` sees them from a directory.
-/

namespace RunPlan.Workflow

/-! ### Paths -/

/-- The workflow with every relative path seen from `base`. -/
def resolvePaths (w : Workflow) (base : Path) : Workflow :=
  { w with
    scenarioPath := base.resolve w.scenarioPath
    logPath := base.resolve w.logPath
    training := { w.training with
      loadPath := w.training.loadPath.map base.resolve
      checkpointing := w.training.checkpointing.map fun c =>
        { c with path := base.resolve c.path } } }

/-- The log file of a component: `log_path` for the main one, a file next to it with the
component's name before the extension for the others. -/
def logFile (w : Workflow) (c : Component) : Path :=
  match c with
  | .main => w.logPath
  | _ =>
    let stem := w.logPath.stem.getD w.job
    let ending := match w.logPath.extension with
      | some e => "." ++ e
      | none => ""
    w.logPath.withFileName (stem ++ "." ++ c.name ++ ending)

/-- The directories that must exist before the run starts. -/
def requiredDirs (w : Workflow) : List Path :=
  (w.logPath.parent.filter (·.text ≠ "")).toList ++
    (w.training.checkpointing.map (·.path)).toList

/-! ### Environments -/

/-- The logging section a component follows. -/
def loggingFor (w : Workflow) : Component → Logging
  | .main => w.main.logging
  | .rolloutWorker _ => w.rollout.logging
  | .trainProxy | .trainWorker _ => w.training.logging

/-- The decimal of a 32-bit number. -/
def decimal32 (n : UInt32) : String :=
  Numeral.ofNat n.toNat

/-- The decimal of a port. -/
def decimal16 (n : UInt16) : String :=
  Numeral.ofNat n.toNat

/-- The variables every component gets. -/
def commonEnv (w : Workflow) (c : Component) : Environment :=
  let logging := w.loggingFor c
  (Environment.empty.set "JOB" w.job)
    |>.set "COMPONENT" c.name
    |>.set "SCENARIO_PATH" w.scenarioPath.text
    |>.set "LOG_PATH" (w.logFile c).text
    |>.set "LOG_LEVEL_STDOUT" logging.stdout.name
    |>.set "LOG_LEVEL_FILE" logging.file.name
    |>.set "TRAIN_MODE" w.training.mode.name

/-- Adds the variables of the main component. -/
def mainEnv (w : Workflow) (env : Environment) : Environment :=
  let parallelism := w.rollout.parallelism
  let checkpointing := w.training.checkpointing
  let proxy := if w.training.mode = .parallel then w.training.proxy else none
  env
    |>.setOption "NUM_EPISODES" (w.main.numEpisodes.map decimal32)
    |>.setOption "NUM_STEPS" (w.main.numSteps.map decimal32)
    |>.setOption "EVAL_SCHEDULE" (w.main.evalSchedule.map EvalSchedule.envValue)
    |>.setOption "LOAD_PATH" (w.training.loadPath.map (·.text))
    |>.setOption "LOAD_EPISODE" (w.training.loadEpisode.map decimal32)
    |>.setOption "CHECKPOINT_PATH" (checkpointing.map (·.path.text))
    |>.setOption "CHECKPOINT_INTERVAL" (checkpointing.map (decimal32 ·.interval))
    |>.setOption "ENV_SAMPLE_PARALLELISM" (parallelism.map (decimal32 ·.sampling))
    |>.setOption "ENV_EVAL_PARALLELISM" (parallelism.map (decimal32 ·.evalParallelism))
    |>.setOption "MIN_ENV_SAMPLES" ((parallelism.bind (·.minEnvSamples)).map decimal32)
    |>.setOption "GRACE_FACTOR" ((parallelism.bind (·.graceFactor)).map Binary64.toPlain)
    |>.setOption "ROLLOUT_CONTROLLER_PORT"
        ((parallelism.bind (·.controller)).map (decimal16 ·.port))
    |>.setOption "TRAIN_PROXY_HOST" (proxy.map (·.host))
    |>.setOption "TRAIN_PROXY_FRONTEND_PORT" (proxy.map (decimal16 ·.frontend))

/-- The environment of a component. -/
def componentEnv (w : Workflow) (c : Component) : Environment :=
  let env := w.commonEnv c
  let controller := w.rollout.parallelism.bind (·.controller)
  let proxy := w.training.proxy
  match c with
  | .main => w.mainEnv env
  | .rolloutWorker i =>
    (env.set "ID" (decimal32 i))
      |>.setOption "ROLLOUT_CONTROLLER_HOST" (controller.map (·.host))
      |>.setOption "ROLLOUT_CONTROLLER_PORT" (controller.map (decimal16 ·.port))
  | .trainProxy =>
    env
      |>.setOption "TRAIN_PROXY_FRONTEND_PORT" (proxy.map (decimal16 ·.frontend))
      |>.setOption "TRAIN_PROXY_BACKEND_PORT" (proxy.map (decimal16 ·.backend))
  | .trainWorker i =>
    (env.set "ID" (decimal32 i))
      |>.setOption "TRAIN_PROXY_HOST" (proxy.map (·.host))
      |>.setOption "TRAIN_PROXY_BACKEND_PORT" (proxy.map (decimal16 ·.backend))

/-- Adds the environment of a component in the order of components, unless it has one. -/
def addEnvironment (c : Component) (env : Environment) :
    List (Component × Environment) → List (Component × Environment)
  | [] => [(c, env)]
  | (d, other) :: rest =>
    if c.before d then (c, env) :: (d, other) :: rest
    else if c = d then (d, other) :: rest
    else (d, other) :: addEnvironment c env rest

/-- The environments by component, as a map that is filled from the list of components. -/
def envByComponent (w : Workflow) : List (Component × Environment) :=
  w.components.foldr (fun c envs => addEnvironment c (w.componentEnv c) envs) []

end RunPlan.Workflow
