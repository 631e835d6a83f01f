import RunPlan.Command.Inspect
import RunPlan.Template

/-!
# Starting a workflow

`create` writes the template of a workflow to a new file. It changes nothing unless the
whole document is known to be good.
-/

namespace RunPlan.Command

/-- Why the template is not well formed for the name of a job. Of the legal names, only
numbers of more than 64 bits and `-`, which opens a sequence, make it so. -/
def malformation (job : String) : String :=
  match Yaml.wideInt? job.toList with
  | some n =>
    "job: invalid type: integer " ++ backquoted (Numeral.ofInt n) ++ " as " ++
      (if n < 0 then "i128" else "u128") ++ ", expected any YAML value"
  | none => "block sequence entries are not allowed in this context"

/-- The failure of a template for the name of a job. -/
def templateFailure (job : String) : WorkflowError → Failure
  | .document .unreadable =>
    .because "Rendered template is not a valid workflow" <|
      "Malformed workflow document: " ++ malformation job
  | e => .ofWorkflowError "Rendered template is not a valid workflow" e

/-- The document of a new workflow. The name of a job must be legal, and must be a text
where it stands in the template. -/
def newDocument : Option String → Except Failure String
  | none => .ok (Template.forJob Template.defaultJob)
  | some job =>
    match checkJobName job with
    | some fault => .error (.plain ("Invalid job name '" ++ job ++ "': " ++ fault.message))
    | none =>
      match Workflow.ofText (Template.forJob job) with
      | .ok _ => .ok (Template.forJob job)
      | .error e => .error (templateFailure job e)

/-- Writes a new workflow to a file. A file that exists is kept unless `overwrite`. -/
def create (host : Host) (p : Path) (job : Option String) (overwrite : Bool) : Outcome :=
  if host.pathExists p ∧ !overwrite then
    .success host.files "" <|
      textOfLines ["Workflow file already exists: " ++ p.text, "Use --force to overwrite"]
  else
    match newDocument job with
    | .error f => .failure host.files "" f
    | .ok text =>
      match host.files.writeText host.here p text with
      | .error fault => .failure host.files "" (.ofFault ("Failed to write " ++ p.text) fault)
      | .ok files => .success files "" (textOfLines ["Workflow file created: " ++ p.text])

end RunPlan.Command
