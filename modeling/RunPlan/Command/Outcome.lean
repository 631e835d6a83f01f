import RunPlan.Host
import RunPlan.Text.Quote
import RunPlan.Workflow.Load

/-!
# Outcomes of commands

A command ends with an `Outcome`: an exit code, two texts, and the files it leaves
behind. Messages on the way are `LogLine`s, shown from a threshold on. A `Failure` says
what was attempted and lists the causes, outermost first.
-/

namespace RunPlan.Command

/-! ### Messages -/

/-- One message on the way. -/
structure LogLine where
  level : LogLevel
  text : String
deriving DecidableEq, Repr

/-- The message as a line. -/
def LogLine.render (line : LogLine) : String :=
  line.level.name ++ " " ++ line.text ++ "\n"

/-- The messages that a threshold shows, as lines. -/
def renderLog (threshold : LogLevel) (lines : List LogLine) : String :=
  String.join ((lines.filter fun line => threshold.shows line.level).map LogLine.render)

/-- The threshold for messages of a command that has no threshold of its own. -/
def defaultThreshold (verbose : Bool) : LogLevel :=
  if verbose then .debug else .warn

/-- A path in a message for diagnosis: quoted, with single quotes escaped too. -/
def quotePath (p : Path) : String :=
  let inner := p.text.toList.flatMap fun c =>
    if c = '\'' then ['\\', '\''] else Text.quoteChar c
  String.ofList (['"'] ++ inner ++ ['"'])

/-- The message before a workflow is read. -/
def loadingLine (p : Path) : LogLine :=
  ⟨.debug, "Loading workflow from: " ++ quotePath p⟩

/-- The messages about a workflow that has no problem. -/
def acceptedLines (w : Workflow) : List LogLine :=
  (if w.ignoresTrainingSettings then
    [⟨.warn, "training.proxy / training.num_workers are ignored in simple mode"⟩]
  else []) ++
  [⟨.info, "Loaded workflow '" ++ w.job ++ "' (" ++ w.training.mode.name ++ " mode)"⟩]

/-! ### Failures -/

/-- What was attempted, and why it failed. -/
structure Failure where
  attempt : String
  /-- The causes, outermost first. -/
  causes : List String
  /-- Whether the causes go on without a fixed wording. -/
  continues : Bool
deriving DecidableEq, Repr

namespace Failure

/-- A failure without a cause. -/
def plain (attempt : String) : Failure :=
  ⟨attempt, [], false⟩

/-- A failure with one cause. -/
def because (attempt cause : String) : Failure :=
  ⟨attempt, [cause], false⟩

/-- A failure of an operation on files. -/
def ofFault (attempt : String) (fault : FileFault) : Failure :=
  because attempt fault.message

/-- A failure to load a workflow. A document that is not well formed is called so. -/
def ofWorkflowError (attempt : String) : WorkflowError → Failure
  | .source => ⟨attempt, ["Configuration source error"], true⟩
  | .file p fault =>
    ⟨attempt, ((WorkflowError.file p fault).message.toList ++ [fault.message]), false⟩
  | e => because attempt (e.message.getD "Malformed workflow document")

/-- A cause, the first line after `lead` and further lines indented as deep. -/
def indentCause (lead cause : String) : String :=
  let margin := String.ofList (List.replicate lead.length ' ')
  lead ++ Text.replaceAll "\n" ("\n" ++ margin) cause

/-- Numbers causes from `n` on. -/
def numberCauses : Nat → List String → List String
  | _, [] => []
  | n, cause :: rest =>
    indentCause (Text.padLeft 5 (Numeral.ofNat n) ++ ": ") cause :: numberCauses (n + 1) rest

/-- The failure as it is reported. A single cause is not numbered; an open end has no
line feed. -/
def render (f : Failure) : String :=
  let causes :=
    match f.causes, f.continues with
    | [cause], false => [indentCause "    " cause]
    | causes, _ => numberCauses 0 causes
  let list := if causes = [] then [] else ["", "Caused by:"] ++ causes
  "Error: " ++ Text.join "\n" (f.attempt :: list) ++ (if f.continues then "" else "\n")

end Failure

/-! ### Outcomes -/

/-- How a command ends. -/
structure Outcome where
  code : Nat
  stdout : String
  stderr : String
  /-- The files afterwards. -/
  files : FileSystem

namespace Outcome

/-- A command that printed `stdout` and succeeded. -/
def success (files : FileSystem) (stderr stdout : String) : Outcome :=
  ⟨0, stdout, stderr, files⟩

/-- A command that failed after writing `stderr`. -/
def failure (files : FileSystem) (stderr : String) (f : Failure) : Outcome :=
  ⟨1, "", stderr ++ f.render, files⟩

end Outcome

end RunPlan.Command
