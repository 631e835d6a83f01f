import RunPlan.Yaml.Reader
import RunPlan.Yaml.Scalar

/-!
# Strict reading

`readNode` reads a document in which every character is allowed, every scalar has a value
and no key is repeated. Nesting is bounded, and aliases may not multiply the document
without bound.
-/

namespace RunPlan.Yaml

/-- The start of a text. A byte order mark is passed over; the first line then starts in
the second column. -/
def strictStart? (text : String) : Option Cursor :=
  if !text.toList.all isAllowed then none
  else
    match normalizeBreaks isNextLine text.toList with
    | c :: cs =>
      if c.toNat = 0xFEFF then some { rest := cs, pos := Position.next {} }
      else some { rest := c :: cs }
    | [] => some { rest := [] }

/-- The value of a key, as far as it has one. -/
def sameKeyNode (a b : Node) : Bool :=
  match a.toValue, b.toValue with
  | some v, some w => v.sameKey w
  | _, _ => false

/-- Whether a node has a value when its parts do. A node inside itself has none. -/
def hasValue : Node → Bool
  | .scalar tag plain text => (scalarValue tag plain text).isSome
  | .reference none => false
  | _ => true

/-- The dialect of strict reading. -/
def strictDialect : Dialect where
  start? := strictStart?
  accepts := hasValue
  sameKey := sameKeyNode
  endsLine := false

/-- The deepest nesting of collections. -/
def maxDepth : Nat :=
  128

/-- How often aliases may be followed, per node of the document. -/
def aliasFactor : Nat :=
  100

mutual

/-- The nesting of collections in a node, aliases followed. -/
def Node.depth : Node → Nat
  | .scalar .. => 0
  | .sequence _ items => depthItems items + 1
  | .mapping _ entries => depthEntries entries + 1
  | .reference (some target) => target.depth
  | .reference none => 0

/-- The deepest nesting among items. -/
def depthItems : List Node → Nat
  | [] => 0
  | n :: ns => max n.depth (depthItems ns)

/-- The deepest nesting among entries. -/
def depthEntries : List (Node × Node) → Nat
  | [] => 0
  | (k, n) :: rest => max (max k.depth n.depth) (depthEntries rest)

end

mutual

/-- The number of marks that make up a node: one for a scalar or an alias, two for a
collection besides its parts. -/
def Node.size : Node → Nat
  | .scalar .. => 1
  | .sequence _ items => sizeItems items + 2
  | .mapping _ entries => sizeEntries entries + 2
  | .reference _ => 1

/-- The size of items. -/
def sizeItems : List Node → Nat
  | [] => 0
  | n :: ns => n.size + sizeItems ns

/-- The size of entries. -/
def sizeEntries : List (Node × Node) → Nat
  | [] => 0
  | (k, n) :: rest => k.size + n.size + sizeEntries rest

end

mutual

/-- Follows every alias, each one costing a unit of a budget; `none` when it runs out. -/
def Node.spend : Node → Nat → Option Nat
  | .scalar .., budget => some budget
  | .sequence _ items, budget => spendItems items budget
  | .mapping _ entries, budget => spendEntries entries budget
  | .reference (some target), budget => if budget = 0 then none else target.spend (budget - 1)
  | .reference none, budget => some budget

/-- Follows the aliases in items. -/
def spendItems : List Node → Nat → Option Nat
  | [], budget => some budget
  | n :: ns, budget =>
    match n.spend budget with
    | some left => spendItems ns left
    | none => none

/-- Follows the aliases in entries. -/
def spendEntries : List (Node × Node) → Nat → Option Nat
  | [], budget => some budget
  | (k, n) :: rest, budget =>
    match k.spend budget with
    | none => none
    | some left =>
      match n.spend left with
      | some left => spendEntries rest left
      | none => none

end

/-- Reads the document of a text strictly, with its value. A text without any token
reads as null. -/
def readNode (text : String) : Except ReadError (Node × Value) := do
  let n := (← readDocument strictDialect text).getD .empty
  if maxDepth < n.depth || (n.spend (aliasFactor * n.size)).isNone then .error .malformed
  else
    let v ← orMalformed n.toValue
    .ok (n, v)

end RunPlan.Yaml
