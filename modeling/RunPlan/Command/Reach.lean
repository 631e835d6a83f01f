import RunPlan.Command.Run

/-!
# What a command line can see

`reach` lists the paths that a command line looks at or writes to, as far as the host
tells: a host with more files tells more, since the env file can name the workflow and
the workflow names the files of its run. Four rounds of looking reach everything.
-/

namespace RunPlan.Command

/-- The paths of a run of a workflow. -/
def runPaths (w : Workflow) (directory : Path) (envDirectory : Option Path) : List Path :=
  let run := w.resolvePaths directory
  let envDirectory := envDirectory.getD (defaultEnvDirectory run)
  [run.scenarioPath, run.logPath, envDirectory] ++ run.training.loadPath.toList ++
    run.requiredDirs ++ run.components.map (envFileOf envDirectory)

/-- The paths of a request. -/
def Request.paths (host : Host) : Request → List Path
  | .validate s _ | .print s _ _ | .schedule s _ _ | .environment s _ _ _ => s.path.toList
  | .create p _ _ => [p]
  | .prepare s directory envDirectory =>
    match s.file host with
    | .error _ => []
    | .ok p =>
      match s.read host p with
      | .error _ => [p]
      | .ok w => p :: runPaths w (directory.getD host.directory) envDirectory

/-- The paths of a command line. -/
def reach (host : Host) (arguments : List String) : List Path :=
  let seeded := host.withEnvFile
  host.envFileCandidates ++ seeded.workflowCandidates ++
    match Invocation.read arguments with
    | .error _ => []
    | .ok i => i.request.paths seeded

/-- The locations that following a path visits, relative paths from `here`. -/
def visited (here : Location) (p : Path) : List Location :=
  let start := if p.isAbsolute then [] else here
  let step (locations : List Location) (name : List Char) : List Location :=
    let last := locations.headD []
    if Path.isVoid name then locations
    else if name = ['.', '.'] then last.dropLast :: locations
    else (last ++ [String.ofList name]) :: locations
  ((Text.splitAll '/' p.text.toList).foldl step [start]).reverse

end RunPlan.Command
