import RunPlan.FileSystem
import RunPlan.Problem
import RunPlan.Workflow.Decode
import RunPlan.Workflow.Tree
import RunPlan.Yaml.Strict

/-!
# Loading workflows

`Workflow.ofText` reads a document exactly as written and `Workflow.ofValue` takes data
that has been read already. Both look for the required fields first, so that a missing
one is reported before anything else; `ofText` also validates the result.
-/

namespace RunPlan

/-- What is wrong with a document. -/
inductive DocumentFault where
  /-- It is not well formed, or there is none that could hold the data. -/
  | unreadable
  /-- A mapping has a key twice. -/
  | duplicateKey (path : Yaml.NodePath) (key : Value)
  /-- It is not a mapping, but what is named here. -/
  | wrongRoot (kind : String)
  /-- It does not fit the schema. -/
  | schema (error : SchemaError)

/-- Why loading a workflow fails. -/
inductive WorkflowError where
  | file (path : Path) (fault : FileFault)
  | document (fault : DocumentFault)
  | missingField (name : String)
  | invalid (problem : Problem)
  /-- A layered document is not well formed. -/
  | source

/-- How a message mentions a key that is there twice. -/
def duplicateText : Value → String
  | .null => "with null key"
  | .bool b => "with key " ++ backquoted (if b then "true" else "false")
  | .int n => "with key " ++ Numeral.ofInt n
  | .float x => "with key " ++ Value.floatText x
  | .string s => "with key " ++ Text.quote s
  | _ => "in YAML map"

/-- The reason as a message, if it is known in detail. -/
def DocumentFault.message : DocumentFault → Option String
  | unreadable => none
  | duplicateKey path key => some (withPath path ("duplicate entry " ++ duplicateText key))
  | wrongRoot kind => some ("document root must be a mapping, got " ++ kind)
  | schema e => some e.message

namespace WorkflowError

/-- The field that the error is about. -/
def field : WorkflowError → Option String
  | missingField name => some name
  | invalid p => some p.setting.path
  | _ => none

/-- The error as a message, if it is known in detail. -/
def message : WorkflowError → Option String
  | file path fault => some ("IO error reading " ++ path.text ++ ": " ++ fault.message)
  | document fault => fault.message.map ("Malformed workflow document: " ++ ·)
  | missingField name => some ("Missing required field " ++ backquoted name)
  | invalid p =>
    some ("Invalid value for " ++ backquoted p.setting.path ++ ": " ++ p.fault.message)
  | source => none

end WorkflowError

/-- What a value is, for a message. -/
def Value.kindName : Value → String
  | .null => "null"
  | .bool _ => "a boolean"
  | .int _ | .float _ => "a number"
  | .string _ => "a string"
  | .sequence _ => "a sequence"
  | .mapping _ => "a mapping"
  | .tagged .. => "a tagged value"

/-- Whether a field is absent from a mapping, or null. -/
def isMissing (entries : List (Value × Value)) (name : String) : Bool :=
  match Value.find? entries name with
  | none => true
  | some v => v.isNull

/-- Checks that the required fields are there. An empty document lacks the first one. -/
def checkRequired : Value → Except WorkflowError Unit
  | .null => .error (.missingField "job")
  | .mapping entries =>
    match requiredFields.find? (isMissing entries) with
    | some name => .error (.missingField name)
    | none => .ok ()
  | v => .error (.document (.wrongRoot v.kindName))

/-- The workflow of a document, its schema errors as errors of loading. -/
def decodeDocument (n : Yaml.Node) : Except WorkflowError Workflow :=
  match Workflow.decode n with
  | .ok w => .ok w
  | .error e => .error (.document (.schema e))

/-- The error of a document that cannot be read. -/
def ofReadError : Yaml.ReadError → WorkflowError
  | .malformed => .document .unreadable
  | .duplicateKey path key => .document (.duplicateKey path (key.toValue.getD .null))

namespace Workflow

/-- Fails on the first problem. -/
def validate (w : Workflow) : Except WorkflowError Unit :=
  match w.problems with
  | [] => .ok ()
  | p :: _ => .error (.invalid p)

/-- The workflow that data describes, which is that of the document that the writer makes of
the data. So numbers are taken in their canonical spelling where a text is expected, and data
that no document can hold is refused. -/
def ofValue (v : Value) : Except WorkflowError Workflow := do
  checkRequired v
  if v.hasNestedTag then .error (.document .unreadable)
  else decodeDocument (Yaml.valueNode v)

/-- The workflow of a document, read exactly as written and validated. -/
def ofText (text : String) : Except WorkflowError Workflow :=
  match Yaml.readNode text with
  | .error e => .error (ofReadError e)
  | .ok (n, v) => do
    checkRequired v
    let w ← decodeDocument n
    w.validate
    return w

/-- Reads the text of a document. -/
def readFile (fs : FileSystem) (current : Location) (p : Path) :
    Except WorkflowError String :=
  match fs.readText current p with
  | .ok text => .ok text
  | .error fault => .error (.file p fault)

/-- The workflow of a file, read exactly as written and validated. -/
def ofFile (fs : FileSystem) (current : Location) (p : Path) :
    Except WorkflowError Workflow :=
  readFile fs current p >>= ofText

/-- The workflow with the value at a path of names replaced. -/
def withField (w : Workflow) (names : List String) (value : Value) :
    Except WorkflowError Workflow :=
  ofValue (Value.setAt value names w.toValue)

end Workflow

end RunPlan
