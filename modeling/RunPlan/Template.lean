import RunPlan.Text.Basic

/-!
# The template of a workflow

`Template.forJob` is the document a new workflow starts from: every setting with a
comment, for a job of the given name. The job's name is also part of the paths that the
job writes to.
-/

namespace RunPlan.Template

/-- The job of the template when nobody names one. -/
def defaultJob : String :=
  "cim_rl_workflow"

/-- The settings of the episode loop. -/
def mainLines : List String := [
  "main:",
  "  num_episodes: 30",
  "  # Optional cap on steps per episode; null runs each episode to completion.",
  "  num_steps: null",
  "  # Interval (every N episodes) or an explicit list such as [5, 10, 30].",
  "  eval_schedule: 5",
  "  logging:",
  "    stdout: INFO",
  "    file: DEBUG"]

/-- The settings of rollout. -/
def rolloutLines : List String := [
  "rollout:",
  "  # Uncomment to collect experience with several env samplers.",
  "  # parallelism:",
  "  #   sampling: 3",
  "  #   eval: null",
  "  #   min_env_samples: 3",
  "  #   grace_factor: 0.2",
  "  #   controller:",
  "  #     host: 127.0.0.1",
  "  #     port: 20000",
  "  logging:",
  "    stdout: INFO",
  "    file: DEBUG"]

/-- The settings of training. -/
def trainingLines (job : String) : List String := [
  "training:",
  "  # simple: train in the main process; parallel: dispatch through a proxy.",
  "  mode: simple",
  "  load_path: null",
  "  load_episode: null",
  "  checkpointing:",
  "    path: checkpoint/" ++ job,
  "    interval: 5",
  "  # Required in parallel mode.",
  "  # proxy:",
  "  #   host: 127.0.0.1",
  "  #   frontend: 10000",
  "  #   backend: 10001",
  "  # num_workers: 4",
  "  logging:",
  "    stdout: INFO",
  "    file: DEBUG"]

/-- The lines of the template for a job. -/
def lines (job : String) : List String :=
  [ "# rlwf workflow template",
    "#",
    "# Paths are relative to the directory the runner is started from.",
    "job: " ++ job,
    "scenario_path: scenarios/cim/rl",
    "log_path: log/" ++ job ++ ".txt",
    "" ] ++ mainLines ++ [""] ++ rolloutLines ++ [""] ++ trainingLines job

/-- The template for a job. -/
def forJob (job : String) : String :=
  String.ofList (Text.unlines ((lines job).map String.toList))

end RunPlan.Template
