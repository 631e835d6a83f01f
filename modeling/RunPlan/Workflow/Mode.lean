import RunPlan.Workflow.Decode

/-!
# Training modes as JSON

A mode alone, outside a document: a text, or a mapping with the mode as its one key and
null as value.
-/

namespace RunPlan.TrainingMode

/-- What a JSON value is, for a message. -/
def describeJson : Value → String
  | .null => "null"
  | .bool b => (Found.bool b).display
  | .int n => (Found.int n).display
  | .float x => "floating point " ++ backquoted x.toScientific
  | .string s => (Found.text s).display
  | .sequence _ => Found.sequence.display
  | .mapping _ => Found.map.display
  | .tagged _ v => describeJson v

/-- The mode with a name. -/
def named (name : String) : Except String TrainingMode :=
  match ofName? name with
  | some m => .ok m
  | none => .error (Mismatch.unknownVariant name ["simple", "parallel"]).message

/-- The mode that a JSON value stands for. -/
def ofValue : Value → Except String TrainingMode
  | .string s => named s
  | .mapping [(.string name, content)] => do
    let m ← named name
    if content.isNull then .ok m
    else .error ("invalid type: " ++ describeJson content ++ ", expected unit")
  | .mapping _ => .error "invalid value: map, expected map with a single key"
  | v => .error ("invalid type: " ++ describeJson v ++ ", expected string or map")

end RunPlan.TrainingMode
