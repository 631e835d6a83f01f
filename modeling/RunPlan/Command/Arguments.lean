import RunPlan.Component
import RunPlan.Path

/-!
# Command-line arguments

A command declares its `Switch`es. `scan` reads arguments into `Item`s: `--name=value`,
`--name value`, `-nvalue`, `-n=value`, `-n value`, and several letters after one dash;
after `--` every argument is an operand. `collect` gathers the items of a command, each
switch at most once.
-/

namespace RunPlan.Command

/-- How a document is printed. -/
inductive OutputFormat where
  | yaml
  | json
deriving DecidableEq, Repr

/-- A value given on the command line. -/
inductive Argument where
  | path (path : Path)
  | text (text : String)
  | format (format : OutputFormat)
  | component (component : Component)
deriving DecidableEq, Repr

/-- What a switch takes. -/
inductive ArgumentKind where
  | path
  | text
  | format
  | component
deriving DecidableEq, Repr

/-- The value that a text stands for. A path is never empty. -/
def ArgumentKind.read? : ArgumentKind → String → Option Argument
  | path, value => if value = "" then none else some (.path ⟨value⟩)
  | text, value => some (.text value)
  | format, "yaml" => some (.format .yaml)
  | format, "json" => some (.format .json)
  | format, _ => none
  | component, value =>
    match Component.parse value with
    | .ok c => some (.component c)
    | .error _ => none

/-- A named argument: a flag, or an option that takes a value. -/
structure Switch where
  name : String
  letter : Option Char
  takes : Option ArgumentKind
deriving DecidableEq, Repr

/-- One thing said on a command line. -/
inductive Item where
  | flag (name : String)
  | option (name : String) (value : Argument)
  | operand (text : String)
  /-- The separator before operands. -/
  | separator
  /-- An argument that cannot be understood; nothing after it is read. -/
  | invalid
deriving DecidableEq, Repr

/-- The item of an option with its value. -/
def optionItem (s : Switch) (kind : ArgumentKind) (value : String) : Item :=
  match kind.read? value with
  | some argument => .option s.name argument
  | none => .invalid

/-- Whether an argument names switches or is the separator. -/
def isSwitch (argument : String) : Bool :=
  match argument.toList with
  | '-' :: _ :: _ => true
  | _ => false

/-- What the letters after a dash say: items, then perhaps an option whose value is the
next argument. -/
structure Letters where
  items : List Item
  pending : Option (Switch × ArgumentKind)

/-- Reads the letters after a dash. -/
def readLetters (switches : List Switch) : List Char → Letters
  | [] => ⟨[], none⟩
  | c :: cs =>
    match switches.find? (·.letter = some c) with
    | none => ⟨[.invalid], none⟩
    | some s =>
      match s.takes, cs with
      | none, _ =>
        let more := readLetters switches cs
        ⟨.flag s.name :: more.items, more.pending⟩
      | some kind, [] => ⟨[], some (s, kind)⟩
      | some kind, '=' :: value => ⟨[optionItem s kind (String.ofList value)], none⟩
      | some kind, value => ⟨[optionItem s kind (String.ofList value)], none⟩

/-- Reads what follows two dashes. -/
def readWord (switches : List Switch) (word : List Char) : Letters :=
  let (name, value) := match Text.splitOnce '=' word with
    | some (name, value) => (name, some (String.ofList value))
    | none => (word, none)
  match switches.find? (·.name = String.ofList name) with
  | none => ⟨[.invalid], none⟩
  | some s =>
    match s.takes, value with
    | none, none => ⟨[.flag s.name], none⟩
    | none, some _ => ⟨[.invalid], none⟩
    | some kind, some value => ⟨[optionItem s kind value], none⟩
    | some kind, none => ⟨[], some (s, kind)⟩

/-- Reads arguments. -/
def scan (switches : List Switch) : List String → List Item
  | [] => []
  | argument :: rest =>
    let continueWith (read : Letters) : List Item :=
      match read.pending with
      | none => read.items ++ scan switches rest
      | some (s, kind) =>
        match rest with
        | [] => read.items ++ [.invalid]
        | value :: rest =>
          if isSwitch value then read.items ++ [.invalid]
          else read.items ++ [optionItem s kind value] ++ scan switches rest
    match argument.toList with
    | ['-', '-'] => .separator :: rest.map .operand
    | '-' :: '-' :: word => continueWith (readWord switches word)
    | '-' :: c :: cs => continueWith (readLetters switches (c :: cs))
    | _ => .operand argument :: scan switches rest

/-- Why no command is carried out. -/
inductive Interruption where
  /-- The arguments make no sense. -/
  | usage
  | help
  | version
deriving DecidableEq, Repr

/-- What is given to a command. -/
structure Given where
  flags : List String
  options : List (String × Argument)
  operand : Option Path
deriving Repr

namespace Given

/-- Nothing given. -/
def nothing : Given :=
  ⟨[], [], none⟩

/-- Whether a flag is given. -/
def has (g : Given) (name : String) : Bool :=
  g.flags.contains name

/-- The path given with an option. -/
def path? (g : Given) (name : String) : Option Path :=
  match g.options.lookup name with
  | some (.path p) => some p
  | _ => none

/-- The text given with an option. -/
def text? (g : Given) (name : String) : Option String :=
  match g.options.lookup name with
  | some (.text t) => some t
  | _ => none

/-- The format given with an option. -/
def format? (g : Given) (name : String) : Option OutputFormat :=
  match g.options.lookup name with
  | some (.format f) => some f
  | _ => none

/-- The component given with an option. -/
def component? (g : Given) (name : String) : Option Component :=
  match g.options.lookup name with
  | some (.component c) => some c
  | _ => none

/-- Adds one item. A repeated switch, an empty operand and an operand too many are
refused. -/
def add (takesOperand : Bool) (g : Given) : Item → Except Interruption Given
  | .flag "help" => .error .help
  | .flag "version" => .error .version
  | .flag name =>
    if g.has name then .error .usage else .ok { g with flags := g.flags ++ [name] }
  | .option name value =>
    if (g.options.lookup name).isSome then .error .usage
    else .ok { g with options := g.options ++ [(name, value)] }
  | .operand text =>
    if takesOperand ∧ g.operand.isNone ∧ text ≠ "" then
      .ok { g with operand := some ⟨text⟩ }
    else .error .usage
  | .separator => .ok g
  | .invalid => .error .usage

end Given

/-- What the items say together. -/
def collect (takesOperand : Bool) (items : List Item) : Except Interruption Given :=
  items.foldlM (Given.add takesOperand) .nothing

end RunPlan.Command
