import RunPlan.Number.Numeral
import RunPlan.Workflow.Basic

/-!
# Components

A run consists of processes: the main one, rollout workers, a training proxy and
training workers. `Component.name` is the name of a process and `Component.parse` reads
names; `Workflow.components` lists the processes a workflow needs.
-/

namespace RunPlan

/-- A process of a run. -/
inductive Component where
  /-- The episode loop, with the rollout controller and, in simple mode, training. -/
  | main
  | rolloutWorker (index : UInt32)
  | trainProxy
  | trainWorker (index : UInt32)
deriving DecidableEq, Repr, Inhabited

namespace Component

/-- The name of a component. -/
def name : Component → String
  | main => "main"
  | rolloutWorker i => "rollout_worker." ++ Numeral.ofNat i.toNat
  | trainProxy => "train_proxy"
  | trainWorker i => "train_worker." ++ Numeral.ofNat i.toNat

/-- The place of the kind, then the index. -/
def key : Component → Nat × Nat
  | main => (0, 0)
  | rolloutWorker i => (1, i.toNat)
  | trainProxy => (2, 0)
  | trainWorker i => (3, i.toNat)

/-- The order of components: the main process, rollout workers, the proxy, training
workers; workers by index. -/
def before (a b : Component) : Bool :=
  a.key.1 < b.key.1 || (a.key.1 == b.key.1 && a.key.2 < b.key.2)

/-- Inserts a component in an ordered list, unless it is there. -/
def insert (c : Component) : List Component → List Component
  | [] => [c]
  | d :: ds => if c.before d then c :: d :: ds else if c = d then d :: ds else d :: insert c ds

/-- Components in order, each once. -/
def sorted (list : List Component) : List Component :=
  list.foldr insert []

/-- Reads the index of a worker in the component name `whole`. -/
def parseIndex (whole : String) (index : List Char) : Except String UInt32 :=
  match Numeral.readUnsigned? 10 (2 ^ 32 - 1) index with
  | some n => .ok (UInt32.ofNat n)
  | none =>
    .error ("invalid worker index '" ++ String.ofList index ++ "' in component '" ++ whole ++ "'")

/-- Reads the name of a component. -/
def parse (text : String) : Except String Component :=
  let unknown : Except String Component := .error <|
    "unknown component '" ++ text ++
      "', expected main, rollout_worker.<n>, train_proxy or train_worker.<n>"
  match Text.splitOnce '.' text.toList with
  | none =>
    if text = "main" then .ok main
    else if text = "train_proxy" then .ok trainProxy
    else unknown
  | some (kind, index) =>
    if kind = "rollout_worker".toList then rolloutWorker <$> parseIndex text index
    else if kind = "train_worker".toList then trainWorker <$> parseIndex text index
    else unknown

end Component

/-- The indices below `count`. -/
def indicesBelow (count : UInt32) : List UInt32 :=
  (List.range count.toNat).map UInt32.ofNat

namespace Workflow

/-- The rollout workers: none unless rollout is distributed. -/
def rolloutWorkers (w : Workflow) : List Component :=
  match w.rollout.parallelism with
  | some p =>
    if p.isDistributed then (indicesBelow p.numWorkers).map .rolloutWorker else []
  | none => []

/-- The training processes: none in simple mode. -/
def trainingProcesses (w : Workflow) : List Component :=
  match w.training.mode with
  | .simple => []
  | .parallel =>
    .trainProxy :: (indicesBelow (w.training.numWorkers.getD 0)).map .trainWorker

/-- The components that the runner must start, in order. -/
def components (w : Workflow) : List Component :=
  .main :: (w.rolloutWorkers ++ w.trainingProcesses)

end Workflow

end RunPlan
