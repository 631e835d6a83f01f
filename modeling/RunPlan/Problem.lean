import RunPlan.Number.Numeral
import RunPlan.Workflow.Basic

/-!
# Problems of a workflow

The type of a workflow fixes its shape; this module checks what the type does not say:
ranges of values, and fields that only make sense together. `Workflow.problems` lists
every problem, each one naming the offending `Setting` and the `Fault` found there.
-/

namespace RunPlan

/-- A field of the schema that a problem can be about. -/
inductive Setting where
  | job
  | scenarioPath
  | logPath
  | numEpisodes
  | numSteps
  | evalSchedule
  | evalScheduleItem (index : Nat)
  | sampling
  | evalParallelism
  | minEnvSamples
  | graceFactor
  | controller
  | controllerHost
  | controllerPort
  | loadPath
  | loadEpisode
  | checkpointPath
  | checkpointInterval
  | proxy
  | proxyHost
  | proxyFrontend
  | proxyBackend
  | numWorkers
deriving DecidableEq, Repr

/-- The dotted path of the field in a document. -/
def Setting.path : Setting → String
  | job => "job"
  | scenarioPath => "scenario_path"
  | logPath => "log_path"
  | numEpisodes => "main.num_episodes"
  | numSteps => "main.num_steps"
  | evalSchedule => "main.eval_schedule"
  | evalScheduleItem index => "main.eval_schedule[" ++ Numeral.ofNat index ++ "]"
  | sampling => "rollout.parallelism.sampling"
  | evalParallelism => "rollout.parallelism.eval"
  | minEnvSamples => "rollout.parallelism.min_env_samples"
  | graceFactor => "rollout.parallelism.grace_factor"
  | controller => "rollout.parallelism.controller"
  | controllerHost => "rollout.parallelism.controller.host"
  | controllerPort => "rollout.parallelism.controller.port"
  | loadPath => "training.load_path"
  | loadEpisode => "training.load_episode"
  | checkpointPath => "training.checkpointing.path"
  | checkpointInterval => "training.checkpointing.interval"
  | proxy => "training.proxy"
  | proxyHost => "training.proxy.host"
  | proxyFrontend => "training.proxy.frontend"
  | proxyBackend => "training.proxy.backend"
  | numWorkers => "training.num_workers"

/-- What can be wrong with a field. -/
inductive Fault where
  | emptyJob
  | jobTooLong
  | invalidJobName
  | emptyPath
  | pathTooLong
  | notPositive
  | emptyHost
  | invalidHost
  | invalidPort
  | invalidGraceFactor
  | emptySchedule
  | evalAfterEnd (episode total : UInt32)
  | minExceedsSampling (sampling : UInt32)
  | missingController
  | missingLoadPath
  | nothingToResume (total : UInt32)
  | portConflict
  | missingProxy
  | missingNumWorkers
deriving DecidableEq, Repr

/-- The longest job name, in bytes. -/
def maxJobNameLength : Nat :=
  128

/-- The longest path, in bytes. -/
def maxPathLength : Nat :=
  4096

namespace Fault

/-- A short name for programs. -/
def code : Fault → String
  | emptyJob => "empty_job"
  | jobTooLong => "job_too_long"
  | invalidJobName => "invalid_job_name"
  | emptyPath => "empty_path"
  | pathTooLong => "path_too_long"
  | notPositive => "not_positive"
  | emptyHost => "empty_host"
  | invalidHost => "invalid_host"
  | invalidPort => "invalid_port"
  | invalidGraceFactor => "invalid_grace_factor"
  | emptySchedule => "empty_schedule"
  | evalAfterEnd .. => "eval_after_end"
  | minExceedsSampling _ => "min_exceeds_sampling"
  | missingController => "missing_controller"
  | missingLoadPath => "missing_load_path"
  | nothingToResume _ => "nothing_to_resume"
  | portConflict => "port_conflict"
  | missingProxy => "missing_proxy"
  | missingNumWorkers => "missing_num_workers"

/-- A sentence for people. -/
def message : Fault → String
  | emptyJob => "Job name cannot be empty"
  | jobTooLong =>
    "Job name must be at most " ++ Numeral.ofNat maxJobNameLength ++ " characters"
  | invalidJobName => "Job name may only contain letters, digits, '_', '-' and '.'"
  | emptyPath => "Path cannot be empty"
  | pathTooLong => "Path must be at most " ++ Numeral.ofNat maxPathLength ++ " bytes"
  | notPositive => "Must be at least 1"
  | emptyHost => "Host cannot be empty"
  | invalidHost => "Host cannot contain whitespace"
  | invalidPort => "Port must be between 1 and 65535"
  | invalidGraceFactor => "Grace factor must be a finite, non-negative number"
  | emptySchedule => "Episode list cannot be empty; use null to disable evaluation"
  | evalAfterEnd episode total =>
    "Episode " ++ Numeral.ofNat episode.toNat ++ " exceeds num_episodes (" ++
      Numeral.ofNat total.toNat ++ ")"
  | minExceedsSampling sampling =>
    "Must not exceed sampling parallelism (" ++ Numeral.ofNat sampling.toNat ++ ")"
  | missingController => "Required when sampling or eval parallelism is greater than 1"
  | missingLoadPath => "Requires training.load_path"
  | nothingToResume total =>
    "Must be less than num_episodes (" ++ Numeral.ofNat total.toNat ++ ")"
  | portConflict => "Frontend and backend ports must differ"
  | missingProxy => "Required when training.mode is parallel"
  | missingNumWorkers => "Required when training.mode is parallel"

end Fault

/-- A fault and the field it is found in. -/
structure Problem where
  setting : Setting
  fault : Fault
deriving DecidableEq, Repr

/-- The problem as a line of a report. -/
def Problem.display (p : Problem) : String :=
  p.setting.path ++ ": " ++ p.fault.message

/-! ### Checks of single values -/

/-- Characters allowed in a job name, which becomes part of file names. -/
def isJobNameChar (c : Char) : Bool :=
  Text.isAlphanumeric c || c == '_' || c == '-' || c == '.'

/-- Checks a job name. -/
def checkJobName (name : String) : Option Fault :=
  if name = "" then some .emptyJob
  else if maxJobNameLength < name.utf8ByteSize then some .jobTooLong
  else if name.toList.all isJobNameChar then none
  else some .invalidJobName

/-- Checks the length of a path. -/
def checkPath (p : Path) : Option Fault :=
  if p.text = "" then some .emptyPath
  else if maxPathLength < p.text.utf8ByteSize then some .pathTooLong
  else none

/-- Checks a count, which starts at one. -/
def checkPositive (n : UInt32) : Option Fault :=
  if n = 0 then some .notPositive else none

/-- Checks a host name. -/
def checkHost (host : String) : Option Fault :=
  if Text.trim host.toList = [] then some .emptyHost
  else if host.toList.any Text.isWhitespace then some .invalidHost
  else none

/-- Checks a port. -/
def checkPort (port : UInt16) : Option Fault :=
  if port = 0 then some .invalidPort else none

/-- Checks a grace factor. -/
def checkGraceFactor (x : Binary64) : Option Fault :=
  if !x.isFinite || x.isBelowZero then some .invalidGraceFactor else none

/-! ### Checks of sections -/

/-- The problem of a setting, when its check finds a fault. -/
def problemAt (setting : Setting) (fault : Option Fault) : List Problem :=
  (fault.map (Problem.mk setting)).toList

/-- The problem of an optional setting. -/
def problemAtOption {α : Type} (setting : Setting) (check : α → Option Fault)
    (value : Option α) : List Problem :=
  problemAt setting (value.bind check)

/-- The problem of a condition that must not hold. -/
def problemWhen (condition : Bool) (setting : Setting) (fault : Fault) : List Problem :=
  if condition then [⟨setting, fault⟩] else []

/-- Problems of a listed episode, given the length of the run when it is known. -/
def episodeProblems (total : Option UInt32) (index : Nat) (episode : UInt32) :
    List Problem :=
  problemAt (.evalScheduleItem index) (checkPositive episode) ++
    match total with
    | some n =>
      problemWhen (n < episode) (.evalScheduleItem index) (.evalAfterEnd episode n)
    | none => []

/-- Problems of the listed episodes from an index on. -/
def listProblems (total : Option UInt32) : Nat → List UInt32 → List Problem
  | _, [] => []
  | index, e :: es => episodeProblems total index e ++ listProblems total (index + 1) es

/-- Problems of an evaluation schedule. An interval longer than the run is none. -/
def EvalSchedule.problems (total : Option UInt32) : EvalSchedule → List Problem
  | interval n => problemAt .evalSchedule (checkPositive n)
  | episodes list =>
    problemWhen list.isEmpty .evalSchedule .emptySchedule ++ listProblems total 0 list

/-- Problems of the `main` section. -/
def MainSection.problems (m : MainSection) : List Problem :=
  problemAtOption .numEpisodes checkPositive m.numEpisodes ++
    problemAtOption .numSteps checkPositive m.numSteps ++
    (m.evalSchedule.map (EvalSchedule.problems m.numEpisodes)).getD []

/-- Problems of the controller, and of its absence. -/
def Parallelism.controllerProblems (p : Parallelism) : List Problem :=
  match p.controller with
  | some c =>
    problemAt .controllerHost (checkHost c.host) ++
      problemAt .controllerPort (checkPort c.port)
  | none => problemWhen p.isDistributed .controller .missingController

/-- Problems of `rollout.parallelism`. -/
def Parallelism.problems (p : Parallelism) : List Problem :=
  problemAt .sampling (checkPositive p.sampling) ++
    problemAtOption .evalParallelism checkPositive p.eval ++
    problemAtOption .minEnvSamples checkPositive p.minEnvSamples ++
    problemWhen (p.minEnvSamples.any (p.sampling < ·)) .minEnvSamples
      (.minExceedsSampling p.sampling) ++
    problemAtOption .graceFactor checkGraceFactor p.graceFactor ++
    p.controllerProblems

/-- Problems of `training.load_episode`. -/
def TrainingSection.resumeProblems (t : TrainingSection) (total : Option UInt32) :
    List Problem :=
  match t.loadEpisode with
  | none => []
  | some e =>
    problemWhen t.loadPath.isNone .loadEpisode .missingLoadPath ++
      match total with
      | some n => problemWhen (n ≤ e) .loadEpisode (.nothingToResume n)
      | none => []

/-- Problems of `training.checkpointing`. -/
def Checkpointing.problems (c : Checkpointing) : List Problem :=
  problemAt .checkpointPath (checkPath c.path) ++
    problemAt .checkpointInterval (checkPositive c.interval)

/-- Problems of `training.proxy`. -/
def Proxy.problems (p : Proxy) : List Problem :=
  problemAt .proxyHost (checkHost p.host) ++
    problemAt .proxyFrontend (checkPort p.frontend) ++
    problemAt .proxyBackend (checkPort p.backend) ++
    problemWhen (p.frontend == p.backend) .proxyBackend .portConflict

/-- What parallel training needs and does not have. -/
def TrainingSection.modeProblems (t : TrainingSection) : List Problem :=
  match t.mode with
  | .simple => []
  | .parallel =>
    problemWhen t.proxy.isNone .proxy .missingProxy ++
      problemWhen t.numWorkers.isNone .numWorkers .missingNumWorkers

/-- Problems of the `training` section. -/
def TrainingSection.problems (t : TrainingSection) (total : Option UInt32) :
    List Problem :=
  problemAtOption .loadPath checkPath t.loadPath ++
    t.resumeProblems total ++
    (t.checkpointing.map Checkpointing.problems).getD [] ++
    (t.proxy.map Proxy.problems).getD [] ++
    problemAtOption .numWorkers checkPositive t.numWorkers ++
    t.modeProblems

/-- Every problem of a workflow. -/
def Workflow.problems (w : Workflow) : List Problem :=
  problemAt .job (checkJobName w.job) ++
    problemAt .scenarioPath (checkPath w.scenarioPath) ++
    problemAt .logPath (checkPath w.logPath) ++
    w.main.problems ++
    (w.rollout.parallelism.map Parallelism.problems).getD [] ++
    w.training.problems w.main.numEpisodes

end RunPlan
