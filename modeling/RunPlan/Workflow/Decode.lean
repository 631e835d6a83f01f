import RunPlan.Text.Quote
import RunPlan.Workflow.Basic
import RunPlan.Yaml.Scalar

/-!
# Decoding workflow documents

`Workflow.decode` turns a document into a workflow, or says what does not fit the schema
and where. Fields are taken in the order of the document; a section goes on with its
defaults for what it does not mention.

Each section is described by its fields (`Field`), and `decodeSection` does the rest, so
that the schema is the lists of fields below.
-/

namespace RunPlan

open Yaml

/-! ### What does not fit -/

/-- What a document has where something else is expected. -/
inductive Found where
  | bool (b : Bool)
  | int (n : Int)
  | float (x : Binary64)
  | text (s : String)
  | unit
  | sequence
  | map
deriving DecidableEq, Repr

/-- The words for what was found. -/
def Found.display : Found → String
  | bool b => "boolean \x60" ++ (if b then "true" else "false") ++ "\x60"
  | int n => "integer \x60" ++ Numeral.ofInt n ++ "\x60"
  | float x => "floating point \x60" ++ x.toPointed ++ "\x60"
  | text s => "string " ++ Text.quote s
  | unit => "unit value"
  | sequence => "sequence"
  | map => "map"

/-- Why a part of a document does not fit the schema. -/
inductive Mismatch where
  | invalidType (found : Found) (expected : String)
  | invalidValue (found : Found) (expected : String)
  | unknownField (name : String) (known : List String)
  | duplicateField (name : String)
  | missingField (name : String)
  | unknownVariant (name : String) (known : List String)
  | noScheduleForm
  | taggedSchedule
deriving DecidableEq, Repr

/-- A name in backquotes. -/
def backquoted (name : String) : String :=
  "\x60" ++ name ++ "\x60"

/-- What is expected instead of a name. -/
def oneOf (known : List String) : String :=
  match known.map backquoted with
  | [] => "there are no fields"
  | [a] => "expected " ++ a
  | [a, b] => "expected " ++ a ++ " or " ++ b
  | names => "expected one of " ++ Text.join ", " names

/-- The reason as a message. -/
def Mismatch.message : Mismatch → String
  | invalidType found expected =>
    "invalid type: " ++ found.display ++ ", expected " ++ expected
  | invalidValue found expected =>
    "invalid value: " ++ found.display ++ ", expected " ++ expected
  | unknownField name known => "unknown field " ++ backquoted name ++ ", " ++ oneOf known
  | duplicateField name => "duplicate field " ++ backquoted name
  | missingField name => "missing field " ++ backquoted name
  | unknownVariant name known =>
    "unknown variant " ++ backquoted name ++ ", " ++ oneOf known
  | noScheduleForm => "data did not match any variant of untagged enum EvalSchedule"
  | taggedSchedule => "untagged and internally tagged enums do not support enum input"

/-- A mismatch and where it is. -/
structure SchemaError where
  path : NodePath
  mismatch : Mismatch
deriving DecidableEq, Repr

/-- A message with the path of what it is about, unless that is the root. -/
def withPath (path : NodePath) (message : String) : String :=
  match path with
  | [] => message
  | _ => path.display ++ ": " ++ message

/-- The error as a message. -/
def SchemaError.message (e : SchemaError) : String :=
  withPath e.path e.mismatch.message

/-! ### Scalars -/

/-- What a node is, for a message. -/
def foundIn : Node → Found
  | .scalar tag plain text =>
    match scalarValue tag plain text with
    | some (.bool b) => .bool b
    | some (.int n) => .int n
    | some (.float x) => .float x
    | some .null => .unit
    | _ => .text text
  | .sequence .. => .sequence
  | .mapping .. => .map
  | .reference _ => .unit

/-- The failure of a node of the wrong type. -/
def wrongType {α : Type} (path : NodePath) (n : Node) (expected : String) :
    Except SchemaError α :=
  .error ⟨path, .invalidType (foundIn n) expected⟩

/-- A text, of any scalar. -/
def decodeText (expected : String) (path : NodePath) (n : Node) : Except SchemaError String :=
  match n.target with
  | .scalar _ _ text => .ok text
  | other => wrongType path other expected

/-- A text. -/
def decodeString : NodePath → Node → Except SchemaError String :=
  decodeText "a string"

/-- A path. -/
def decodePath (path : NodePath) (n : Node) : Except SchemaError Path :=
  Path.mk <$> decodeText "path string" path n

/-- A whole number not above `largest`, which must be a plain scalar. -/
def decodeNat (largest : Nat) (expected : String) (path : NodePath) (n : Node) :
    Except SchemaError Nat :=
  match n.target with
  | .scalar tag plain text =>
    match if plain then readUnsigned? (2 ^ 64 - 1) text.toList else none with
    | some k =>
      if k ≤ largest then .ok k else .error ⟨path, .invalidValue (.int k) expected⟩
    | none => wrongType path (.scalar tag plain text) expected
  | other => wrongType path other expected

/-- A number of 32 bits. -/
def decodeUInt32 (path : NodePath) (n : Node) : Except SchemaError UInt32 :=
  UInt32.ofNat <$> decodeNat (2 ^ 32 - 1) "u32" path n

/-- A port number. -/
def decodeUInt16 (path : NodePath) (n : Node) : Except SchemaError UInt16 :=
  UInt16.ofNat <$> decodeNat (2 ^ 16 - 1) "u16" path n

/-- A floating-point number, which must be a plain scalar. -/
def decodeFloat (path : NodePath) (n : Node) : Except SchemaError Binary64 :=
  match n.target with
  | .scalar tag plain text =>
    match if plain then readFloat? text.toList else none with
    | some x => .ok x
    | none => wrongType path (.scalar tag plain text) "f64"
  | other => wrongType path other "f64"

/-- Whether a node stands for the absence of a value. -/
def isAbsent : Node → Bool
  | .scalar tag plain text =>
    plain &&
      match tagKind tag with
      | .untagged => text == "" || isNullText text
      | .core .null => true
      | _ => false
  | _ => false

/-- An optional value: null is absence. -/
def decodeOption {α : Type} (decode : NodePath → Node → Except SchemaError α)
    (path : NodePath) (n : Node) : Except SchemaError (Option α) :=
  if isAbsent n.target then .ok none else some <$> decode path n

/-- One of several names. A name may also be written as a tag, without a value. -/
def decodeVariant {α : Type} (ofName? : String → Option α) (known : List String)
    (path : NodePath) (n : Node) : Except SchemaError α :=
  let named (name : String) : Except SchemaError α :=
    match ofName? name with
    | some a => .ok a
    | none => .error ⟨path, .unknownVariant name known⟩
  match n.target with
  | .scalar tag _ text =>
    match tagKind tag with
    | .own name => do
      let a ← named name
      if text = "" ∨ isNullText text then .ok a
      else .error ⟨path, .invalidValue (.text text) "null"⟩
    | _ => named text
  | other =>
    let tag := match other with
      | .sequence tag _ => tag
      | .mapping tag _ => tag
      | _ => none
    match tagKind tag with
    | .own name => do
      let _ ← named name
      wrongType path other "unit"
    | _ => wrongType path other "a YAML tag starting with '!'"

/-- A log level. -/
def decodeLevel : NodePath → Node → Except SchemaError LogLevel :=
  decodeVariant LogLevel.ofName? ["DEBUG", "INFO", "WARN", "WARNING", "ERROR"]

/-- A training mode. -/
def decodeMode : NodePath → Node → Except SchemaError TrainingMode :=
  decodeVariant TrainingMode.ofName? ["simple", "parallel"]

/-! ### Schedules -/

/-- Whether a tag is one of the document's own. -/
def isOwnTag (tag : Option String) : Bool :=
  match tagKind tag with
  | .own _ => true
  | _ => false

mutual

/-- The first tag of a document's own in a node. -/
def findTag (path : NodePath) : Node → Option NodePath
  | .scalar tag _ _ => if isOwnTag tag then some path else none
  | .sequence tag items => if isOwnTag tag then some path else findTagItems path 0 items
  | .mapping tag entries => if isOwnTag tag then some path else findTagEntries path entries
  | .reference (some target) => findTag path target
  | .reference none => none

/-- The first tag of a document's own in items from an index on. -/
def findTagItems (path : NodePath) (i : Nat) : List Node → Option NodePath
  | [] => none
  | n :: ns => (findTag (.index i :: path) n).or (findTagItems path (i + 1) ns)

/-- The first tag of a document's own in entries. -/
def findTagEntries (path : NodePath) : List (Node × Node) → Option NodePath
  | [] => none
  | (k, n) :: rest =>
    ((findTag path k).or (findTag (k.step :: path) n)).or (findTagEntries path rest)

end

/-- An episode in a schedule. -/
def episodeOf? (n : Node) : Option UInt32 :=
  match n.target with
  | .scalar tag plain text =>
    match scalarValue tag plain text with
    | some (.int (.ofNat k)) => if k < 2 ^ 32 then some (UInt32.ofNat k) else none
    | _ => none
  | _ => none

/-- A schedule: a number, or a list of numbers. -/
def scheduleOf? (n : Node) : Option EvalSchedule :=
  match n.target with
  | .sequence _ items => (items.mapM episodeOf?).map .episodes
  | other => (episodeOf? other).map .interval

/-- A schedule. A node of neither form is a mismatch of the section around it. -/
def decodeSchedule (path : NodePath) (n : Node) : Except SchemaError EvalSchedule :=
  match findTag path n with
  | some tagged => .error ⟨tagged, .taggedSchedule⟩
  | none =>
    match scheduleOf? n with
    | some s => .ok s
    | none => .error ⟨path.drop 1, .noScheduleForm⟩

/-! ### Sections -/

/-- A field of a section: its name, and how it is taken into what has been read so
far. -/
structure Field (α : Type) where
  name : String
  read : NodePath → Node → α → Except SchemaError α

/-- A field that replaces one component of a section. -/
def Field.of {α β : Type} (name : String) (decode : NodePath → Node → Except SchemaError β)
    (store : α → β → α) : Field α where
  name := name
  read path n a := store a <$> decode path n

/-- The name of a field, which may be any scalar. -/
def fieldName (path : NodePath) (key : Node) : Except SchemaError String :=
  match key.target with
  | .scalar _ _ text => .ok text
  | other => wrongType path other "field identifier"

/-- Takes the entries of a section in order. `seen` are the names so far. -/
def decodeEntries {α : Type} (fields : List (Field α)) (path : NodePath) (seen : List String)
    (a : α) : List (Node × Node) → Except SchemaError (List String × α)
  | [] => .ok (seen, a)
  | (key, value) :: rest => do
    let name ← fieldName path key
    match fields.find? (·.name == name) with
    | none => .error ⟨path, .unknownField name (fields.map (·.name))⟩
    | some field =>
      if seen.contains name then .error ⟨path, .duplicateField name⟩
      else
        let a ← field.read (key.step :: path) value a
        decodeEntries fields path (name :: seen) a rest

/-- A section with the given fields, starting from its defaults. A section with nothing
written in it is the default. -/
def decodeSection {α : Type} (title : String) (fields : List (Field α))
    (required : List String) (start : α) (path : NodePath) (n : Node) :
    Except SchemaError α := do
  let entries ← match n.target with
    | .mapping _ entries => .ok entries
    | .scalar tag plain text =>
      if plain && text == "" then .ok []
      else wrongType path (.scalar tag plain text) ("struct " ++ title)
    | other => wrongType path other ("struct " ++ title)
  let (seen, a) ← decodeEntries fields path [] start entries
  match required.find? (!seen.contains ·) with
  | some name => .error ⟨path, .missingField name⟩
  | none => .ok a

/-- The fields of a `logging` section. -/
def loggingFields : List (Field Logging) := [
  .of "stdout" decodeLevel fun a v => { a with stdout := v },
  .of "file" decodeLevel fun a v => { a with file := v }]

/-- A `logging` section. -/
def decodeLogging : NodePath → Node → Except SchemaError Logging :=
  decodeSection "LoggingSection" loggingFields [] {}

/-- The fields of the `main` section. -/
def mainFields : List (Field MainSection) := [
  .of "num_episodes" (decodeOption decodeUInt32) fun a v => { a with numEpisodes := v },
  .of "num_steps" (decodeOption decodeUInt32) fun a v => { a with numSteps := v },
  .of "eval_schedule" (decodeOption decodeSchedule) fun a v => { a with evalSchedule := v },
  .of "logging" decodeLogging fun a v => { a with logging := v }]

/-- The `main` section. -/
def decodeMain : NodePath → Node → Except SchemaError MainSection :=
  decodeSection "MainSection" mainFields [] {}

/-- The fields of the controller. -/
def controllerFields : List (Field Controller) := [
  .of "host" decodeString fun a v => { a with host := v },
  .of "port" decodeUInt16 fun a v => { a with port := v }]

/-- The controller. -/
def decodeController : NodePath → Node → Except SchemaError Controller :=
  decodeSection "ControllerSection" controllerFields ["host", "port"] ⟨"", 0⟩

/-- The fields of `rollout.parallelism`. -/
def parallelismFields : List (Field Parallelism) := [
  .of "sampling" decodeUInt32 fun a v => { a with sampling := v },
  .of "eval" (decodeOption decodeUInt32) fun a v => { a with eval := v },
  .of "min_env_samples" (decodeOption decodeUInt32) fun a v => { a with minEnvSamples := v },
  .of "grace_factor" (decodeOption decodeFloat) fun a v => { a with graceFactor := v },
  .of "controller" (decodeOption decodeController) fun a v => { a with controller := v }]

/-- The section `rollout.parallelism`. -/
def decodeParallelism : NodePath → Node → Except SchemaError Parallelism :=
  decodeSection "ParallelismSection" parallelismFields [] {}

/-- The fields of the `rollout` section. -/
def rolloutFields : List (Field RolloutSection) := [
  .of "parallelism" (decodeOption decodeParallelism) fun a v => { a with parallelism := v },
  .of "logging" decodeLogging fun a v => { a with logging := v }]

/-- The `rollout` section. -/
def decodeRollout : NodePath → Node → Except SchemaError RolloutSection :=
  decodeSection "RolloutSection" rolloutFields [] {}

/-- The fields of `training.checkpointing`. -/
def checkpointingFields : List (Field Checkpointing) := [
  .of "path" decodePath fun a v => { a with path := v },
  .of "interval" decodeUInt32 fun a v => { a with interval := v }]

/-- The section `training.checkpointing`. -/
def decodeCheckpointing : NodePath → Node → Except SchemaError Checkpointing :=
  decodeSection "Checkpointing" checkpointingFields ["path", "interval"] ⟨⟨""⟩, 0⟩

/-- The fields of `training.proxy`. -/
def proxyFields : List (Field Proxy) := [
  .of "host" decodeString fun a v => { a with host := v },
  .of "frontend" decodeUInt16 fun a v => { a with frontend := v },
  .of "backend" decodeUInt16 fun a v => { a with backend := v }]

/-- The section `training.proxy`. -/
def decodeProxy : NodePath → Node → Except SchemaError Proxy :=
  decodeSection "ProxySection" proxyFields ["host", "frontend", "backend"] ⟨"", 0, 0⟩

/-- The fields of the `training` section. -/
def trainingFields : List (Field TrainingSection) := [
  .of "mode" decodeMode fun a v => { a with mode := v },
  .of "load_path" (decodeOption decodePath) fun a v => { a with loadPath := v },
  .of "load_episode" (decodeOption decodeUInt32) fun a v => { a with loadEpisode := v },
  .of "checkpointing" (decodeOption decodeCheckpointing)
    fun a v => { a with checkpointing := v },
  .of "proxy" (decodeOption decodeProxy) fun a v => { a with proxy := v },
  .of "num_workers" (decodeOption decodeUInt32) fun a v => { a with numWorkers := v },
  .of "logging" decodeLogging fun a v => { a with logging := v }]

/-- The `training` section. -/
def decodeTraining : NodePath → Node → Except SchemaError TrainingSection :=
  decodeSection "TrainingSection" trainingFields [] {}

/-- The fields of a document. -/
def workflowFields : List (Field Workflow) := [
  .of "job" decodeString fun a v => { a with job := v },
  .of "scenario_path" decodePath fun a v => { a with scenarioPath := v },
  .of "log_path" decodePath fun a v => { a with logPath := v },
  .of "main" decodeMain fun a v => { a with main := v },
  .of "rollout" decodeRollout fun a v => { a with rollout := v },
  .of "training" decodeTraining fun a v => { a with training := v }]

/-- The names of the fields that every document must carry. -/
def requiredFields : List String :=
  ["job", "scenario_path", "log_path"]

/-- The workflow of a document. -/
def Workflow.decode (n : Node) : Except SchemaError Workflow :=
  decodeSection "Workflow" workflowFields requiredFields (.minimal "" ⟨""⟩ ⟨""⟩) [] n

end RunPlan
