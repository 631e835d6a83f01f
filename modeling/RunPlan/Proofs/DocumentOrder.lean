import RunPlan.Problem
import RunPlan.Proofs.Decode
import Mathlib.Data.List.Nodup

/-!
# The order of a document

The fields of a section are declared in some order, and documents are printed in that order. A
place in a document is the path that leads to it from the root; a place comes before another one
when it is above it, or when the two paths part at a field that is declared earlier or at an
earlier item of a list.

The declared order is taken from the fields that the decoder reads. That printed documents
follow it is proved section by section: the names of a printed section are among the declared
ones and in their order, some of them left out.

## Key results

- `Schema.Follows.pairwise`: a tree that follows a schema has its places in declared order
- `Workflow.follows_toValue`: a printed workflow follows the schema
- `Setting.display_steps`: a setting is reported by the path to its place
-/

namespace RunPlan

open Yaml

variable {α β : Type}

/-! ## Declared fields -/

/-- What there is below a place of a document. -/
inductive Schema where
  /-- Nothing, or the items of a list. -/
  | value
  /-- The fields of a section in the order of their declaration, and what is below each. -/
  | fields (names : List String) (inner : String → Schema)

namespace Schema

/-- A section that is read field by field. -/
def ofFields (fields : List (Field α)) (inner : String → Schema) : Schema :=
  .fields (fields.map (·.name)) inner

/-- A `logging` section. -/
def logging : Schema :=
  ofFields loggingFields fun _ => value

/-- The `main` section. -/
def main : Schema :=
  ofFields mainFields fun
    | "logging" => logging
    | _ => value

/-- The controller. -/
def controller : Schema :=
  ofFields controllerFields fun _ => value

/-- The section `rollout.parallelism`. -/
def parallelism : Schema :=
  ofFields parallelismFields fun
    | "controller" => controller
    | _ => value

/-- The `rollout` section. -/
def rollout : Schema :=
  ofFields rolloutFields fun
    | "parallelism" => parallelism
    | "logging" => logging
    | _ => value

/-- The section `training.checkpointing`. -/
def checkpointing : Schema :=
  ofFields checkpointingFields fun _ => value

/-- The section `training.proxy`. -/
def proxy : Schema :=
  ofFields proxyFields fun _ => value

/-- The `training` section. -/
def training : Schema :=
  ofFields trainingFields fun
    | "checkpointing" => checkpointing
    | "proxy" => proxy
    | "logging" => logging
    | _ => value

/-- A document. -/
def workflow : Schema :=
  ofFields workflowFields fun
    | "main" => main
    | "rollout" => rollout
    | "training" => training
    | _ => value

/-- Whether a path from the root leads to a declared place. -/
def declares : Schema → List Step → Bool
  | _, [] => true
  | fields names inner, .key name :: steps => names.contains name && (inner name).declares steps
  | value, [.index _] => true
  | _, _ :: _ => false

/-- Where a path from the root leads: for each step, how many fields or items are before it. -/
def place : Schema → List Step → List Nat
  | fields names inner, .key name :: steps => names.idxOf name :: (inner name).place steps
  | value, .index i :: _ => [i]
  | _, _ => []

/-- Whether a place comes before another one in the order of the schema. -/
def Precedes (schema : Schema) (p q : List Step) : Prop :=
  List.Lex (· < ·) (schema.place p) (schema.place q)

instance (schema : Schema) (p q : List Step) : Decidable (schema.Precedes p q) :=
  inferInstanceAs (Decidable (List.Lex _ _ _))

end Schema

/-! ## Printed trees -/

namespace Value

mutual

/-- The places of a tree from top to bottom: that of the tree itself, then those of its
    parts. -/
def places : Value → List (List Step)
  | sequence items => [] :: placesOfItems 0 items
  | mapping entries => [] :: placesOfEntries entries
  | tagged _ content => content.places
  | _ => [[]]

/-- The places of items from an index on. -/
def placesOfItems (i : Nat) : List Value → List (List Step)
  | [] => []
  | v :: vs => v.places.map (.index i :: ·) ++ placesOfItems (i + 1) vs

/-- The places of entries. -/
def placesOfEntries : List (Value × Value) → List (List Step)
  | [] => []
  | (key, v) :: rest => v.places.map ((valueNode key).step :: ·) ++ placesOfEntries rest

end

/-- Whether there is nothing below a value. -/
def IsLeaf (v : Value) : Prop :=
  v.places = [[]]

/-- The places of a record are those of its rows, one after the other. -/
theorem places_record (rows : List (String × Value)) :
    (record rows).places =
      [] :: rows.flatMap fun row => row.2.places.map (.key row.1 :: ·) := by
  rw [record, places]
  congr 1
  induction rows with
  | nil => rfl
  | cons row rows ih =>
    rw [List.map_cons, placesOfEntries, ih, List.flatMap_cons]
    rfl

/-- The items of a list of leaves. -/
theorem placesOfItems_eq {items : List Value} (h : ∀ v ∈ items, v.IsLeaf) (i : Nat) :
    placesOfItems i items = (List.range' i items.length).map fun j => [.index j] := by
  induction items generalizing i with
  | nil => rfl
  | cons v items ih =>
    rw [List.forall_mem_cons] at h
    rw [placesOfItems, h.1, ih h.2, List.length_cons, List.range'_succ, List.map_cons]
    rfl

/-- There is nothing below a number. -/
theorem isLeaf_ofUInt32 (n : UInt32) : (ofUInt32 n).IsLeaf := rfl

/-- There is nothing below a floating-point number. -/
theorem isLeaf_float (x : Binary64) : (float x).IsLeaf := rfl

/-- There is nothing below a text. -/
theorem isLeaf_ofPath (p : Path) : (ofPath p).IsLeaf := rfl

/-- An optional leaf. -/
theorem isLeaf_ofOption {f : β → Value} (h : ∀ b, (f b).IsLeaf) (o : Option β) :
    (ofOption f o).IsLeaf := by
  cases o with
  | none => rfl
  | some b => exact h b

/-- What holds of an entry that may be left out. -/
theorem forall_mem_entryIf {name : String} {f : β → Value} {o : Option β}
    {P : String × Value → Prop} :
    (∀ row ∈ entryIf name f o, P row) ↔ ∀ b ∈ o, P (name, f b) := by
  cases o <;> simp [entryIf]

end Value

/-! ## Trees that follow a schema -/

namespace Schema

/-- Whether a tree has the fields of a schema in the declared order. Any of them may be
    missing, and a leaf may stand for any part. -/
inductive Follows : Schema → Value → Prop where
  | leaf {schema : Schema} {v : Value} (h : v.IsLeaf) : Follows schema v
  | list {items : List Value} (h : ∀ v ∈ items, v.IsLeaf) : Follows value (.sequence items)
  | fields {names : List String} {inner : String → Schema} {rows : List (String × Value)}
      (order : (rows.map Prod.fst).Sublist names) (distinct : names.Nodup)
      (h : ∀ row ∈ rows, Follows (inner row.1) row.2) :
      Follows (fields names inner) (.record rows)

/-- Declared names have ascending positions. -/
theorem pairwise_idxOf {names : List String} (h : names.Nodup) :
    names.Pairwise fun a b => names.idxOf a < names.idxOf b := by
  rw [List.pairwise_iff_getElem]
  intro i j hi hj hij
  rwa [h.idxOf_getElem, h.idxOf_getElem]

/-- The places of a tree that follows a schema are in declared order. -/
theorem Follows.pairwise {schema : Schema} {v : Value} (h : schema.Follows v) :
    v.places.Pairwise schema.Precedes := by
  induction h with
  | leaf h =>
    rw [h]
    exact List.pairwise_singleton _ _
  | list h =>
    -- the list comes before its items, which are leaves with ascending indices
    rw [Value.places, Value.placesOfItems_eq h, List.pairwise_cons, List.pairwise_map]
    refine ⟨fun q hq => ?_, (List.pairwise_lt_range' 1).imp fun hij => .rel hij⟩
    obtain ⟨j, -, rfl⟩ := List.mem_map.mp hq
    exact .nil
  | @fields names inner rows order distinct _ ih =>
    rw [Value.places_record, List.pairwise_cons, List.pairwise_flatMap]
    refine ⟨fun q hq => ?_, fun row hrow => ?_, ?_⟩
    · -- The section comes before what is in it
      obtain ⟨row, -, hq⟩ := List.mem_flatMap.mp hq
      obtain ⟨q, -, rfl⟩ := List.mem_map.mp hq
      exact .nil
    · -- Below one field the order is that of its schema
      rw [List.pairwise_map]
      exact (ih row hrow).imp fun hpq => .cons hpq
    · -- Two fields have all that is below them in the order of their names
      have hnames := (pairwise_idxOf distinct).sublist order
      rw [List.pairwise_map] at hnames
      refine hnames.imp fun hlt p hp q hq => ?_
      obtain ⟨p, -, rfl⟩ := List.mem_map.mp hp
      obtain ⟨q, -, rfl⟩ := List.mem_map.mp hq
      exact .rel hlt

/-- An optional part follows its schema, as null if it is absent. -/
theorem Follows.ofOption {schema : Schema} {f : β → Value} (h : ∀ b, schema.Follows (f b))
    (o : Option β) : schema.Follows (.ofOption f o) := by
  cases o with
  | none => exact .leaf rfl
  | some b => exact h b

end Schema

/-! ## Printed workflows -/

open Value (isLeaf_ofUInt32 isLeaf_float isLeaf_ofPath isLeaf_ofOption)

theorem EvalSchedule.follows_toValue (s : EvalSchedule) : Schema.value.Follows s.toValue := by
  cases s with
  | interval n => exact .leaf (isLeaf_ofUInt32 n)
  | episodes list =>
    refine .list fun v hv => ?_
    obtain ⟨n, -, rfl⟩ := List.mem_map.mp hv
    exact isLeaf_ofUInt32 n

theorem Logging.follows_toValue (l : Logging) : Schema.logging.Follows l.toValue :=
  .fields (.refl _) (by decide) <|
    List.forall_mem_cons.mpr ⟨.leaf rfl, List.forall_mem_singleton.mpr (.leaf rfl)⟩

theorem MainSection.follows_toValue (m : MainSection) : Schema.main.Follows m.toValue := by
  refine .fields (.refl _) (by decide) ?_
  simp only [List.forall_mem_cons]
  exact ⟨.leaf (isLeaf_ofOption isLeaf_ofUInt32 _), .leaf (isLeaf_ofOption isLeaf_ofUInt32 _),
    .ofOption EvalSchedule.follows_toValue _, m.logging.follows_toValue, List.forall_mem_nil _⟩

theorem Controller.follows_toValue (c : Controller) : Schema.controller.Follows c.toValue :=
  .fields (.refl _) (by decide) <|
    List.forall_mem_cons.mpr ⟨.leaf rfl, List.forall_mem_singleton.mpr (.leaf rfl)⟩

theorem Parallelism.follows_toValue (p : Parallelism) :
    Schema.parallelism.Follows p.toValue := by
  refine .fields (.refl _) (by decide) ?_
  simp only [List.forall_mem_cons]
  exact ⟨.leaf (isLeaf_ofUInt32 _), .leaf (isLeaf_ofOption isLeaf_ofUInt32 _),
    .leaf (isLeaf_ofOption isLeaf_ofUInt32 _), .leaf (isLeaf_ofOption isLeaf_float _),
    .ofOption Controller.follows_toValue _, List.forall_mem_nil _⟩

theorem RolloutSection.follows_toValue (r : RolloutSection) :
    Schema.rollout.Follows r.toValue := by
  refine .fields ?_ (by decide) ?_
  · -- Only the first of the two fields may be left out
    rw [List.map_append]
    exact (map_fst_entryIf _ _ _).append (.refl ["logging"])
  · rw [List.forall_mem_append, List.forall_mem_singleton, Value.forall_mem_entryIf]
    exact ⟨fun p _ => p.follows_toValue, r.logging.follows_toValue⟩

theorem Checkpointing.follows_toValue (c : Checkpointing) :
    Schema.checkpointing.Follows c.toValue :=
  .fields (.refl _) (by decide) <|
    List.forall_mem_cons.mpr ⟨.leaf rfl, List.forall_mem_singleton.mpr (.leaf rfl)⟩

theorem Proxy.follows_toValue (p : Proxy) : Schema.proxy.Follows p.toValue := by
  refine .fields (.refl _) (by decide) ?_
  simp only [List.forall_mem_cons]
  exact ⟨.leaf rfl, .leaf rfl, .leaf rfl, List.forall_mem_nil _⟩

theorem TrainingSection.follows_toValue (t : TrainingSection) :
    Schema.training.Follows t.toValue := by
  refine .fields t.isSection.order (by decide) ?_
  simp only [List.forall_mem_append, List.forall_mem_cons, Value.forall_mem_entryIf]
  refine ⟨⟨⟨⟨?_, fun c _ => c.follows_toValue⟩, fun p _ => p.follows_toValue⟩,
    fun n _ => .leaf (isLeaf_ofUInt32 n)⟩, t.logging.follows_toValue, List.forall_mem_nil _⟩
  exact ⟨.leaf rfl, .leaf (isLeaf_ofOption isLeaf_ofPath _),
    .leaf (isLeaf_ofOption isLeaf_ofUInt32 _), List.forall_mem_nil _⟩

/-- A printed workflow follows the schema: its fields are in the order of their declaration. -/
theorem Workflow.follows_toValue (w : Workflow) : Schema.workflow.Follows w.toValue := by
  refine .fields (.refl _) (by decide) ?_
  simp only [List.forall_mem_cons]
  exact ⟨.leaf rfl, .leaf rfl, .leaf rfl, w.main.follows_toValue, w.rollout.follows_toValue,
    w.training.follows_toValue, List.forall_mem_nil _⟩

/-! ## Settings -/

namespace Setting

/-- The path from the root of a document to a setting. -/
def steps : Setting → List Step
  | job => [.key "job"]
  | scenarioPath => [.key "scenario_path"]
  | logPath => [.key "log_path"]
  | numEpisodes => [.key "main", .key "num_episodes"]
  | numSteps => [.key "main", .key "num_steps"]
  | evalSchedule => [.key "main", .key "eval_schedule"]
  | evalScheduleItem index => [.key "main", .key "eval_schedule", .index index]
  | sampling => [.key "rollout", .key "parallelism", .key "sampling"]
  | evalParallelism => [.key "rollout", .key "parallelism", .key "eval"]
  | minEnvSamples => [.key "rollout", .key "parallelism", .key "min_env_samples"]
  | graceFactor => [.key "rollout", .key "parallelism", .key "grace_factor"]
  | controller => [.key "rollout", .key "parallelism", .key "controller"]
  | controllerHost => [.key "rollout", .key "parallelism", .key "controller", .key "host"]
  | controllerPort => [.key "rollout", .key "parallelism", .key "controller", .key "port"]
  | loadPath => [.key "training", .key "load_path"]
  | loadEpisode => [.key "training", .key "load_episode"]
  | checkpointPath => [.key "training", .key "checkpointing", .key "path"]
  | checkpointInterval => [.key "training", .key "checkpointing", .key "interval"]
  | proxy => [.key "training", .key "proxy"]
  | proxyHost => [.key "training", .key "proxy", .key "host"]
  | proxyFrontend => [.key "training", .key "proxy", .key "frontend"]
  | proxyBackend => [.key "training", .key "proxy", .key "backend"]
  | numWorkers => [.key "training", .key "num_workers"]

/-- A setting is reported by the path to its place. -/
theorem display_steps (s : Setting) : NodePath.display s.steps.reverse = s.path := by
  cases s <;> rfl

/-- Every setting has a declared place. -/
theorem declares_steps (s : Setting) : Schema.workflow.declares s.steps = true := by
  cases s <;> rfl

/-- Whether a setting does not come after another one in the order of the document. -/
def NotAfter (a b : Setting) : Prop :=
  ¬Schema.workflow.Precedes b.steps a.steps

instance (a b : Setting) : Decidable (a.NotAfter b) :=
  inferInstanceAs (Decidable (¬_))

variable {a b c : Setting}

theorem NotAfter.refl (a : Setting) : a.NotAfter a :=
  List.lt_irrefl (Schema.workflow.place a.steps)

theorem NotAfter.trans (hab : a.NotAfter b) (hbc : b.NotAfter c) : a.NotAfter c :=
  List.le_trans hab hbc

end Setting

/-- Whether settings are listed in the order of the document. A setting may be there more than
    once. -/
def InDocumentOrder (settings : List Setting) : Prop :=
  settings.Pairwise Setting.NotAfter

instance (settings : List Setting) : Decidable (InDocumentOrder settings) :=
  inferInstanceAs (Decidable (List.Pairwise _ _))

/-- Lists are joined at a setting that nothing in the first one comes after, and that comes
    after nothing in the second one. -/
theorem InDocumentOrder.append {xs ys : List Setting} (hx : InDocumentOrder xs)
    (hy : InDocumentOrder ys) {c : Setting} (hxc : ∀ a ∈ xs, a.NotAfter c)
    (hcy : ∀ b ∈ ys, c.NotAfter b) : InDocumentOrder (xs ++ ys) :=
  List.pairwise_append.mpr ⟨hx, hy, fun a ha b hb => (hxc a ha).trans (hcy b hb)⟩

end RunPlan
