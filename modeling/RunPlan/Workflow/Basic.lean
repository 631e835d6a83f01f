import RunPlan.Number.Binary64
import RunPlan.Path
import RunPlan.Workflow.LogLevel

/-!
# Workflow documents

The schema of a workflow document: three required fields (`job`, `scenario_path`,
`log_path`) and three sections (`main`, `rollout`, `training`). Each section has a
default; an optional field is `none` when the document leaves it out or writes `null`.
-/

namespace RunPlan

/-- Verbosity of a component: on its console, and in its log file. -/
structure Logging where
  stdout : LogLevel := .info
  file : LogLevel := .debug
deriving DecidableEq, Repr, Inhabited

/-- The episodes after which evaluation runs, in the form the document writes them. -/
inductive EvalSchedule where
  /-- Every `n`-th episode. -/
  | interval (n : UInt32)
  /-- The listed episodes. -/
  | episodes (list : List UInt32)
deriving DecidableEq, Repr, Inhabited

/-- The `main` section: the episode loop. -/
structure MainSection where
  /-- How many episodes to run; `none` leaves it to the runner. -/
  numEpisodes : Option UInt32 := none
  /-- The most steps an episode may take. -/
  numSteps : Option UInt32 := none
  evalSchedule : Option EvalSchedule := none
  logging : Logging := {}
deriving DecidableEq, Repr, Inhabited

/-- The address of the rollout controller. -/
structure Controller where
  host : String
  port : UInt16
deriving DecidableEq, Repr, Inhabited

/-- `rollout.parallelism`: experience collected by several processes. -/
structure Parallelism where
  sampling : UInt32 := 1
  /-- Parallelism of evaluation; `none` means that of sampling. -/
  eval : Option UInt32 := none
  /-- Samplers that must report before an episode goes on. -/
  minEnvSamples : Option UInt32 := none
  /-- Extra wait for the others, as a fraction of the time the first ones took. -/
  graceFactor : Option Binary64 := none
  controller : Option Controller := none
deriving DecidableEq, Repr, Inhabited

namespace Parallelism

/-- Parallelism of evaluation. -/
def evalParallelism (p : Parallelism) : UInt32 :=
  p.eval.getD p.sampling

/-- Whether rollout runs outside the main process. -/
def isDistributed (p : Parallelism) : Bool :=
  1 < p.sampling || 1 < p.evalParallelism

/-- The number of rollout workers needed. -/
def numWorkers (p : Parallelism) : UInt32 :=
  if p.sampling < p.evalParallelism then p.evalParallelism else p.sampling

end Parallelism

/-- The `rollout` section. -/
structure RolloutSection where
  parallelism : Option Parallelism := none
  logging : Logging := {}
deriving DecidableEq, Repr, Inhabited

/-- Whether rollout runs outside the main process. -/
def RolloutSection.isDistributed (r : RolloutSection) : Bool :=
  r.parallelism.any Parallelism.isDistributed

/-- Where training runs. -/
inductive TrainingMode where
  /-- Inside the main process. -/
  | simple
  /-- In worker processes, through a proxy. -/
  | parallel
deriving DecidableEq, Repr, Inhabited

namespace TrainingMode

/-- The name in documents and environments. -/
def name : TrainingMode → String
  | simple => "simple"
  | parallel => "parallel"

/-- The mode a document names. -/
def ofName? : String → Option TrainingMode
  | "simple" => some simple
  | "parallel" => some parallel
  | _ => none

end TrainingMode

/-- `training.checkpointing`: where and how often checkpoints are written. -/
structure Checkpointing where
  path : Path
  /-- Episodes between two checkpoints. -/
  interval : UInt32
deriving DecidableEq, Repr, Inhabited

/-- `training.proxy`: the address of the broker of training requests. -/
structure Proxy where
  host : String
  frontend : UInt16
  backend : UInt16
deriving DecidableEq, Repr, Inhabited

/-- The `training` section. -/
structure TrainingSection where
  mode : TrainingMode := .simple
  /-- A run to resume. -/
  loadPath : Option Path := none
  /-- The last episode of the run to resume. -/
  loadEpisode : Option UInt32 := none
  checkpointing : Option Checkpointing := none
  proxy : Option Proxy := none
  numWorkers : Option UInt32 := none
  logging : Logging := {}
deriving DecidableEq, Repr, Inhabited

/-- A workflow document. -/
structure Workflow where
  /-- The name of the run. -/
  job : String
  scenarioPath : Path
  logPath : Path
  main : MainSection := {}
  rollout : RolloutSection := {}
  training : TrainingSection := {}
deriving DecidableEq, Repr, Inhabited

namespace Workflow

/-- The workflow that leaves every optional field at its default. -/
def minimal (job : String) (scenarioPath logPath : Path) : Workflow :=
  { job, scenarioPath, logPath }

/-- The `grace_factor` of a workflow. -/
def graceFactor (w : Workflow) : Option Binary64 :=
  w.rollout.parallelism.bind (·.graceFactor)

/-- Equality in which grace factors are compared by value. -/
def sameValue (u v : Workflow) : Bool :=
  let blank (w : Workflow) : Workflow :=
    { w with rollout.parallelism :=
        w.rollout.parallelism.map fun p => { p with graceFactor := none } }
  let sameGrace := match u.graceFactor, v.graceFactor with
    | none, none => true
    | some x, some y => x.sameValue y
    | _, _ => false
  blank u == blank v && sameGrace

/-- Whether the workflow configures parallel training that its mode does not use. -/
def ignoresTrainingSettings (w : Workflow) : Bool :=
  w.training.mode == .simple && (w.training.proxy.isSome || w.training.numWorkers.isSome)

end Workflow

end RunPlan
