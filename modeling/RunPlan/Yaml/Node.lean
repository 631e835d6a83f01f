import RunPlan.Value

/-!
# Nodes of a document

A `Node` is what a document writes, before scalars get a meaning: a scalar keeps its
text, whether it was quoted, and its tag. `NodePath` says where in a document a node
stands, and `NodePath.display` shows it in messages as `main.eval_schedule[2]`.
-/

namespace RunPlan.Yaml

/-- A node as written. -/
inductive Node where
  /-- A scalar. Only a plain scalar, one without quotes, can be other than a text. -/
  | scalar (tag : Option String) (plain : Bool) (text : String)
  | sequence (tag : Option String) (items : List Node)
  | mapping (tag : Option String) (entries : List (Node × Node))
  /-- A repetition of an earlier node; `none` when that node is still being read. -/
  | reference (target : Option Node)
deriving Repr, Inhabited

/-- A step from a node to one of its parts. -/
inductive Step where
  | key (name : String)
  | index (i : Nat)
  /-- The value under a key that is not a scalar. -/
  | unnamed
deriving DecidableEq, Repr

/-- Where a node stands, last step first. -/
abbrev NodePath := List Step

/-- The path as messages show it; `.` is the root. -/
def NodePath.display : NodePath → String
  | [] => "."
  | .index i :: parent => NodePath.display parent ++ "[" ++ Numeral.ofNat i ++ "]"
  | .key name :: [] => name
  | .unnamed :: [] => "?"
  | .key name :: parent => NodePath.display parent ++ "." ++ name
  | .unnamed :: parent => NodePath.display parent ++ ".?"

namespace Node

/-- An unquoted scalar without a tag. -/
def ofPlain (text : String) : Node :=
  scalar none true text

/-- A node for which nothing is written. -/
def empty : Node :=
  ofPlain ""

/-- The step to the value under a key. -/
def step : Node → Step
  | scalar _ _ text => .key text
  | _ => .unnamed

/-- The node behind aliases. One that is still being read counts as nothing. -/
def target : Node → Node
  | reference (some n) => n.target
  | reference none => empty
  | n => n

end Node

end RunPlan.Yaml
