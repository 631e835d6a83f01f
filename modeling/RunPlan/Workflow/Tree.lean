import RunPlan.Json
import RunPlan.Schedule
import RunPlan.Yaml.Writer

/-!
# Workflows as data

`Workflow.toValue` is the document of a workflow as a tree: fields in the order of the
schema, `null` for most of what is absent, while `parallelism`, `checkpointing`, `proxy`
and `num_workers` are left out. `Workflow.toYaml` and `Workflow.toJson` print it.
-/

namespace RunPlan

namespace Value

/-- A text. -/
def ofPath (p : Path) : Value :=
  .string p.text

/-- An entry that is left out when there is no value. -/
def entryIf {α : Type} (name : String) (f : α → Value) :
    Option α → List (String × Value)
  | some a => [(name, f a)]
  | none => []

end Value

/-- A `logging` section as data. -/
def Logging.toValue (l : Logging) : Value :=
  .record [("stdout", .string l.stdout.name), ("file", .string l.file.name)]

/-- A schedule as data, in its written form. -/
def EvalSchedule.toValue : EvalSchedule → Value
  | interval n => .ofUInt32 n
  | episodes list => .sequence (list.map .ofUInt32)

/-- The `main` section as data. -/
def MainSection.toValue (m : MainSection) : Value :=
  .record [
    ("num_episodes", .ofOption .ofUInt32 m.numEpisodes),
    ("num_steps", .ofOption .ofUInt32 m.numSteps),
    ("eval_schedule", .ofOption EvalSchedule.toValue m.evalSchedule),
    ("logging", m.logging.toValue)]

/-- The controller as data. -/
def Controller.toValue (c : Controller) : Value :=
  .record [("host", .string c.host), ("port", .ofUInt16 c.port)]

/-- The section `rollout.parallelism` as data. -/
def Parallelism.toValue (p : Parallelism) : Value :=
  .record [
    ("sampling", .ofUInt32 p.sampling),
    ("eval", .ofOption .ofUInt32 p.eval),
    ("min_env_samples", .ofOption .ofUInt32 p.minEnvSamples),
    ("grace_factor", .ofOption .float p.graceFactor),
    ("controller", .ofOption Controller.toValue p.controller)]

/-- The `rollout` section as data. -/
def RolloutSection.toValue (r : RolloutSection) : Value :=
  .record <|
    Value.entryIf "parallelism" Parallelism.toValue r.parallelism ++
      [("logging", r.logging.toValue)]

/-- The section `training.checkpointing` as data. -/
def Checkpointing.toValue (c : Checkpointing) : Value :=
  .record [("path", .ofPath c.path), ("interval", .ofUInt32 c.interval)]

/-- The section `training.proxy` as data. -/
def Proxy.toValue (p : Proxy) : Value :=
  .record [
    ("host", .string p.host), ("frontend", .ofUInt16 p.frontend),
    ("backend", .ofUInt16 p.backend)]

/-- The `training` section as data. -/
def TrainingSection.toValue (t : TrainingSection) : Value :=
  .record <|
    [ ("mode", .string t.mode.name),
      ("load_path", .ofOption .ofPath t.loadPath),
      ("load_episode", .ofOption .ofUInt32 t.loadEpisode)] ++
    Value.entryIf "checkpointing" Checkpointing.toValue t.checkpointing ++
    Value.entryIf "proxy" Proxy.toValue t.proxy ++
    Value.entryIf "num_workers" .ofUInt32 t.numWorkers ++
    [("logging", t.logging.toValue)]

namespace Workflow

/-- A workflow as data. -/
def toValue (w : Workflow) : Value :=
  .record [
    ("job", .string w.job),
    ("scenario_path", .ofPath w.scenarioPath),
    ("log_path", .ofPath w.logPath),
    ("main", w.main.toValue),
    ("rollout", w.rollout.toValue),
    ("training", w.training.toValue)]

/-- The document of a workflow. -/
def toYaml (w : Workflow) : String :=
  Yaml.render w.toValue

/-- The workflow as indented JSON. -/
def toJson (w : Workflow) : String :=
  Json.render w.toValue

end Workflow

/-- A plan as data. -/
def EpisodePlan.toValue (p : EpisodePlan) : Value :=
  .record [
    ("first_episode", .ofUInt32 p.firstEpisode),
    ("last_episode", .ofUInt32 p.lastEpisode),
    ("max_steps", .ofOption .ofUInt32 p.maxSteps),
    ("eval_schedule", .ofOption EvalSchedule.toValue p.evalSchedule),
    ("checkpoint_interval", .ofOption .ofUInt32 p.checkpointInterval)]

end RunPlan
