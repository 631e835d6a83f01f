import RunPlan.Proofs.Component
import RunPlan.Proofs.Export

/-!
# Identities of processes

The runner starts one process for each component and tells it by environment variables which
one it is. The workers of each kind are numbered from zero on, and every name is read back as
the component that has it, so no process can take itself for another one.

## Key results

- `Workflow.filterMap_rolloutIndex?`, `Workflow.filterMap_trainIndex?`: the numbers of workers
- `Workflow.hasIdentities`: one process, one identity
-/

namespace RunPlan

namespace Component

/-- The number of a rollout worker. -/
def rolloutIndex? : Component → Option Nat
  | rolloutWorker i => some i.toNat
  | _ => none

/-- The number of a training worker. -/
def trainIndex? : Component → Option Nat
  | trainWorker i => some i.toNat
  | _ => none

/-- The number of a worker of either kind. -/
def index? (c : Component) : Option Nat :=
  c.rolloutIndex?.or c.trainIndex?

end Component

namespace Workflow

variable {w : Workflow} {c : Component} {env : Environment}

/-! ## Numbers -/

/-- Workers that are made for indices have these numbers. -/
private theorem filterMap_map_indicesBelow {worker : UInt32 → Component}
    {number? : Component → Option Nat} (h : ∀ i, number? (worker i) = some i.toNat)
    (count : UInt32) :
    ((indicesBelow count).map worker).filterMap number? = List.range count.toNat := by
  rw [List.filterMap_map, ← map_toNat_indicesBelow, ← List.filterMap_eq_map]
  exact List.filterMap_congr fun i _ => h i

/-- Workers of another kind have none of the numbers. -/
private theorem filterMap_map_indicesBelow_eq_nil {worker : UInt32 → Component}
    {number? : Component → Option Nat} (h : ∀ i, number? (worker i) = none) (count : UInt32) :
    ((indicesBelow count).map worker).filterMap number? = [] := by
  rw [List.filterMap_eq_nil_iff, List.forall_mem_map]
  exact fun i _ => h i

/-- The rollout workers are numbered from zero on. -/
theorem filterMap_rolloutIndex? (w : Workflow) :
    ∃ n, w.components.filterMap Component.rolloutIndex? = List.range n := by
  obtain ⟨n, hn⟩ := w.exists_rolloutWorkers_eq
  have htraining : w.trainingProcesses.filterMap Component.rolloutIndex? = [] := by
    rcases w.trainingProcesses_cases with hnone | ⟨m, hm⟩
    · rw [hnone, List.filterMap_nil]
    · rw [hm, List.filterMap_cons_none rfl, filterMap_map_indicesBelow_eq_nil fun _ => rfl]
  refine ⟨n.toNat, ?_⟩
  rw [components, List.filterMap_cons_none rfl, List.filterMap_append, htraining, hn,
    filterMap_map_indicesBelow fun _ => rfl, List.append_nil]

/-- The training workers are numbered from zero on. -/
theorem filterMap_trainIndex? (w : Workflow) :
    ∃ n, w.components.filterMap Component.trainIndex? = List.range n := by
  obtain ⟨n, hn⟩ := w.exists_rolloutWorkers_eq
  have htraining : ∃ m, w.trainingProcesses.filterMap Component.trainIndex? = List.range m := by
    rcases w.trainingProcesses_cases with hnone | ⟨m, hm⟩
    · exact ⟨0, by rw [hnone, List.filterMap_nil, List.range_zero]⟩
    · refine ⟨m.toNat, ?_⟩
      rw [hm, List.filterMap_cons_none rfl, filterMap_map_indicesBelow fun _ => rfl]
  obtain ⟨m, hm⟩ := htraining
  refine ⟨m, ?_⟩
  rw [components, List.filterMap_cons_none rfl, List.filterMap_append, hn, hm,
    filterMap_map_indicesBelow_eq_nil fun _ => rfl, List.nil_append]

/-! ## What a process is told of itself -/

/-- A process is told its name. -/
theorem get?_component (w : Workflow) (c : Component) :
    (w.componentEnv c).get? "COMPONENT" = some c.name :=
  (get?_componentEnv ..).trans rfl

/-- Workers are told their number, and no other process is told one. -/
theorem get?_id (w : Workflow) (c : Component) :
    (w.componentEnv c).get? "ID" = c.index?.map Numeral.ofNat := by
  cases c with
  | main => exact get?_componentEnv_eq_none (by decide)
  | rolloutWorker i => exact (get?_componentEnv ..).trans rfl
  | trainProxy => exact get?_componentEnv_eq_none (by decide)
  | trainWorker i => exact (get?_componentEnv ..).trans rfl

/-- The entries of the map of environments. -/
theorem mem_envByComponent_iff :
    (c, env) ∈ w.envByComponent ↔ c ∈ w.components ∧ env = w.componentEnv c := by
  rw [envByComponent_eq, List.mem_map]
  constructor
  · rintro ⟨d, hd, heq⟩
    obtain ⟨rfl, rfl⟩ := Prod.mk.inj heq
    exact ⟨hd, rfl⟩
  · rintro ⟨hc, rfl⟩
    exact ⟨c, hc, rfl⟩

/-- Whether the processes of a workflow are in order, and told apart by their environments. -/
structure HasIdentities (w : Workflow) : Prop where
  /-- The main process comes first. -/
  first : w.components.head? = some .main
  /-- Every component comes after those that are listed before it. -/
  ordered : w.components.Pairwise fun c d => c.before d = true
  /-- The rollout workers have the numbers `0`, `1`, `2` and so on. -/
  rolloutNumbered : ∃ n, w.components.filterMap Component.rolloutIndex? = List.range n
  /-- The training workers have the numbers `0`, `1`, `2` and so on. -/
  trainNumbered : ∃ n, w.components.filterMap Component.trainIndex? = List.range n
  /-- There is one entry for each component, with its environment. -/
  entries : w.envByComponent = w.components.map fun c => (c, w.componentEnv c)
  /-- The name in an entry is read back as its component. -/
  name : ∀ c env, (c, env) ∈ w.envByComponent →
    ∃ name, env.get? "COMPONENT" = some name ∧ Component.parse name = .ok c
  /-- The entries of workers have their number in decimal; the others have none. -/
  index : ∀ c env, (c, env) ∈ w.envByComponent → env.get? "ID" = c.index?.map Numeral.ofNat
  /-- No two entries have a name in common. -/
  distinct : (w.envByComponent.map fun entry => entry.2.get? "COMPONENT").Nodup

/-- One process, one identity: the components are in their order, the main one first, with
    workers that are numbered from zero on. Each has one environment, and knows from it which
    one it is. -/
theorem hasIdentities (w : Workflow) : w.HasIdentities where
  first := rfl
  ordered := w.components_pairwise
  rolloutNumbered := w.filterMap_rolloutIndex?
  trainNumbered := w.filterMap_trainIndex?
  entries := w.envByComponent_eq
  name := by
    intro c env h
    obtain ⟨-, rfl⟩ := mem_envByComponent_iff.mp h
    exact ⟨c.name, w.get?_component c, c.parse_name⟩
  index := by
    intro c env h
    obtain ⟨-, rfl⟩ := mem_envByComponent_iff.mp h
    exact w.get?_id c
  distinct := by
    rw [envByComponent_eq, List.map_map]
    apply w.components_nodup.map
    intro c d h
    apply Component.name_injective
    exact Option.some.inj ((w.get?_component c).symm.trans (h.trans (w.get?_component d)))

end Workflow

end RunPlan
