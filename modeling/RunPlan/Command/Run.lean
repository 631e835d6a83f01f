import RunPlan.Command.Create
import RunPlan.Command.Prepare

/-!
# Running a command line

`run` carries out what the arguments ask for on a host. The env file is applied first,
so that it can name the workflow and override its settings.
-/

namespace RunPlan.Command

/-- Carries out a request. -/
def Invocation.perform (i : Invocation) (host : Host) : Outcome :=
  match i.request with
  | .validate s quiet => validate host i.verbose s quiet
  | .print s format base => print host i.verbose s format base
  | .schedule s json all => schedule host i.verbose s json all
  | .environment s c base exports => environment host i.verbose s c base exports
  | .prepare s directory envDirectory => prepare host i.verbose s directory envDirectory
  | .create p job overwrite => create host p job overwrite

/-- The version of the program. -/
def versionText : String :=
  "rlwf 0.3.0\n"

/-- How to call the program. -/
def usageLines : List String := [
  "Usage: rlwf [OPTIONS] <COMMAND>",
  "",
  "Commands:",
  "  validate  Check a workflow file; exits non-zero if it is malformed or incomplete",
  "  show      Print the normalized workflow document",
  "  schedule  Print the evaluation and checkpoint plan",
  "  env       Print the environment each runner component receives",
  "  prepare   Create run directories and per-component env files",
  "  init      Write a workflow template",
  "",
  "Options:",
  "  -v, --verbose  Enable verbose output",
  "  -h, --help     Print help",
  "  -V, --version  Print version"]

/-- The outcome when no command is carried out. -/
def Interruption.outcome (files : FileSystem) : Interruption → Outcome
  | usage => ⟨2, "", textOfLines usageLines, files⟩
  | help => .success files "" (textOfLines usageLines)
  | version => .success files "" versionText

/-- Carries out a command line. -/
def run (host : Host) (arguments : List String) : Outcome :=
  match Invocation.read arguments with
  | .error i => i.outcome host.files
  | .ok i => i.perform host.withEnvFile

end RunPlan.Command
