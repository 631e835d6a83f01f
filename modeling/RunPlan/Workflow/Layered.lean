import RunPlan.Settings.Order
import RunPlan.Workflow.Load

/-!
# Layered loading

A document with variables over it: `RLWF__MAIN__NUM_STEPS=5` replaces `main.num_steps`.
`Workflow.readLayeredIn` takes the merged settings as data. It goes through the document and
the variables in a given order; `Workflow.readLayered` does so as they are written, and
`Workflow.loadLayered` also validates the result.
-/

namespace RunPlan.Workflow

/-- The workflow of a text with variables over it, in an order. -/
def ofLayersIn (order : Settings.Order) (text : String) (overrides : List (String × String)) :
    Except WorkflowError Workflow :=
  match Settings.ofText? text with
  | none => .error .source
  | some entries => ofValue (Settings.layeredIn order entries overrides)

/-- The workflow of a file with variables over it, in an order, not validated. -/
def readLayeredIn (order : Settings.Order) (fs : FileSystem) (current : Location) (p : Path)
    (overrides : List (String × String)) : Except WorkflowError Workflow := do
  let text ← readFile fs current p
  ofLayersIn order text overrides

/-- The workflow of a file with variables over it, as they are written, not validated. -/
def readLayered (fs : FileSystem) (current : Location) (p : Path)
    (overrides : List (String × String)) : Except WorkflowError Workflow :=
  readLayeredIn .written fs current p overrides

/-- The workflow of a file with variables over it, as they are written, validated. -/
def loadLayered (fs : FileSystem) (current : Location) (p : Path)
    (overrides : List (String × String)) : Except WorkflowError Workflow := do
  let w ← readLayered fs current p overrides
  w.validate
  return w

end RunPlan.Workflow
