import RunPlan.Proofs.Export
import RunPlan.Proofs.Validity

/-!
# Processes of a valid run find each other

The processes of a run learn from their environments where the others are. A variable is
set only where the workflow has a value for it, and the list of processes is made without
looking at environments; the checks of a workflow are what makes them fit together.

## Key results

- `rolloutWorker_mem_components_iff`, `trainWorker_mem_components_iff`: the workers of a run
- `countP_isRolloutWorker`: the number of rollout workers
- `rollout_connected`, `training_connected`, `training_unconnected`: what processes are told
-/

namespace RunPlan

/-- Whether a component is a rollout worker. -/
def Component.isRolloutWorker : Component → Bool
  | rolloutWorker _ => true
  | _ => false

namespace Workflow

variable {w : Workflow} {p : Parallelism} {i : UInt32}

/-! ## What processes are told -/

/-- Rollout workers know the controller, and there are as many of them as the main process
    counts on. -/
structure RolloutConnected (w : Workflow) : Prop where
  /-- Every worker knows a host. -/
  host : ∀ i, .rolloutWorker i ∈ w.components → ∃ host,
    (w.componentEnv (.rolloutWorker i)).get? "ROLLOUT_CONTROLLER_HOST" = some host
  /-- Every worker knows the port on which the main process listens. -/
  port : ∀ i, .rolloutWorker i ∈ w.components → ∃ port,
    (w.componentEnv (.rolloutWorker i)).get? "ROLLOUT_CONTROLLER_PORT" = some port ∧
      (w.componentEnv .main).get? "ROLLOUT_CONTROLLER_PORT" = some port
  /-- If there are workers, there is one for each of the larger parallelism, and enough of
      them to report. -/
  count : (∃ i, .rolloutWorker i ∈ w.components) → ∃ sampling eval : UInt32,
    (w.componentEnv .main).get? "ENV_SAMPLE_PARALLELISM" = some (decimal32 sampling) ∧
      (w.componentEnv .main).get? "ENV_EVAL_PARALLELISM" = some (decimal32 eval) ∧
      w.components.countP Component.isRolloutWorker = max sampling.toNat eval.toNat ∧
      ∀ value ∈ (w.componentEnv .main).get? "MIN_ENV_SAMPLES", ∃ n : UInt32,
        value = decimal32 n ∧ n.toNat ≤ w.components.countP Component.isRolloutWorker

/-- The training processes know their two sides of one proxy. -/
structure TrainingConnected (w : Workflow) : Prop where
  proxy : w.components.count .trainProxy = 1
  worker : ∃ i, .trainWorker i ∈ w.components
  /-- The main process talks to the frontend, the workers to the backend. -/
  address : ∃ host frontend backend : String, frontend ≠ backend ∧
    (w.componentEnv .trainProxy).get? "TRAIN_PROXY_FRONTEND_PORT" = some frontend ∧
    (w.componentEnv .trainProxy).get? "TRAIN_PROXY_BACKEND_PORT" = some backend ∧
    (w.componentEnv .main).get? "TRAIN_PROXY_HOST" = some host ∧
    (w.componentEnv .main).get? "TRAIN_PROXY_FRONTEND_PORT" = some frontend ∧
    ∀ i, .trainWorker i ∈ w.components →
      (w.componentEnv (.trainWorker i)).get? "TRAIN_PROXY_HOST" = some host ∧
        (w.componentEnv (.trainWorker i)).get? "TRAIN_PROXY_BACKEND_PORT" = some backend

/-- The main process trains by itself. -/
structure TrainingUnconnected (w : Workflow) : Prop where
  proxy : .trainProxy ∉ w.components
  worker : ∀ i, .trainWorker i ∉ w.components
  address : ∀ name : String, "TRAIN_PROXY_".toList <+: name.toList →
    (w.componentEnv .main).get? name = none

/-! ## The processes -/

theorem mem_indicesBelow {count : UInt32} : i ∈ indicesBelow count ↔ i < count := by
  rw [indicesBelow, List.mem_map, UInt32.lt_iff_toNat_lt]
  constructor
  · rintro ⟨n, hn, rfl⟩
    have hlt := List.mem_range.mp hn
    rwa [UInt32.toNat_ofNat_of_lt' (Nat.lt_trans hlt count.toNat_lt)]
  · intro h
    exact ⟨i.toNat, List.mem_range.mpr h, UInt32.ofNat_toNat⟩

theorem length_indicesBelow (count : UInt32) : (indicesBelow count).length = count.toNat := by
  rw [indicesBelow, List.length_map, List.length_range]

/-- Rollout workers are the only processes of rollout. -/
theorem isRolloutWorker_of_mem {c : Component} (h : c ∈ w.rolloutWorkers) :
    c.isRolloutWorker = true := by
  obtain ⟨n, hn⟩ := w.exists_rolloutWorkers_eq
  rw [hn] at h
  obtain ⟨i, -, rfl⟩ := List.mem_map.mp h
  rfl

/-- No process of training is a rollout worker. -/
theorem not_isRolloutWorker_of_mem {c : Component} (h : c ∈ w.trainingProcesses) :
    c.isRolloutWorker = false := by
  rcases w.trainingProcesses_cases with hnone | ⟨n, hn⟩
  · rw [hnone] at h
    cases h
  · rw [hn] at h
    rcases List.mem_cons.mp h with rfl | h
    · rfl
    · obtain ⟨i, -, rfl⟩ := List.mem_map.mp h
      rfl

theorem rolloutWorker_mem_components_iff : .rolloutWorker i ∈ w.components ↔
    ∃ p, w.rollout.parallelism = some p ∧ p.isDistributed = true ∧ i < p.numWorkers := by
  have htraining : .rolloutWorker i ∉ w.trainingProcesses :=
    fun h => Bool.noConfusion (not_isRolloutWorker_of_mem h)
  simp only [components, List.mem_cons, reduceCtorEq, List.mem_append, htraining, false_or,
    or_false, rolloutWorkers]
  cases w.rollout.parallelism with
  | none => simp
  | some p => by_cases h : p.isDistributed = true <;> simp [h, mem_indicesBelow]

/-- The training processes are not among the rollout workers. -/
theorem mem_components_iff_of_training {c : Component} (hmain : c ≠ .main)
    (hrollout : c.isRolloutWorker = false) : c ∈ w.components ↔ c ∈ w.trainingProcesses := by
  have hnot : c ∉ w.rolloutWorkers := by
    intro hmem
    rw [isRolloutWorker_of_mem hmem] at hrollout
    cases hrollout
  simp only [components, List.mem_cons, List.mem_append, hmain, hnot, false_or]

theorem trainProxy_mem_components_iff :
    .trainProxy ∈ w.components ↔ w.training.mode = .parallel := by
  rw [mem_components_iff_of_training (by simp) rfl, trainingProcesses]
  cases w.training.mode <;> simp

theorem trainWorker_mem_components_iff : .trainWorker i ∈ w.components ↔
    w.training.mode = .parallel ∧ i < w.training.numWorkers.getD 0 := by
  rw [mem_components_iff_of_training (by simp) rfl, trainingProcesses]
  cases w.training.mode <;> simp [mem_indicesBelow]

/-- The number of workers is that of the larger parallelism. -/
theorem toNat_numWorkers (p : Parallelism) :
    p.numWorkers.toNat = max p.sampling.toNat p.evalParallelism.toNat := by
  rw [Parallelism.numWorkers]
  split
  · rename_i h
    have := UInt32.lt_iff_toNat_lt.mp h
    omega
  · rename_i h
    have := UInt32.lt_iff_toNat_lt.not.mp h
    omega

/-- The number of rollout workers of a distributed rollout. -/
theorem countP_isRolloutWorker (hp : w.rollout.parallelism = some p)
    (hdistributed : p.isDistributed = true) :
    w.components.countP Component.isRolloutWorker =
      max p.sampling.toNat p.evalParallelism.toNat := by
  have hrollout : w.rolloutWorkers.countP Component.isRolloutWorker = p.numWorkers.toNat := by
    rw [List.countP_eq_length.mpr fun _ h => isRolloutWorker_of_mem h, rolloutWorkers, hp]
    simp only [hdistributed, if_true, List.length_map, length_indicesBelow]
  have htraining : w.trainingProcesses.countP Component.isRolloutWorker = 0 :=
    List.countP_eq_zero.mpr fun _ h => by simp [not_isRolloutWorker_of_mem h]
  rw [components, List.countP_cons_of_neg (by simp [Component.isRolloutWorker]),
    List.countP_append, hrollout, htraining, Nat.add_zero, toNat_numWorkers]

/-- There is one proxy in parallel mode. -/
theorem count_trainProxy (h : w.training.mode = .parallel) :
    w.components.count .trainProxy = 1 := by
  have hrollout : w.rolloutWorkers.count .trainProxy = 0 :=
    List.count_eq_zero.mpr fun hmem => Bool.noConfusion (isRolloutWorker_of_mem hmem)
  have hworkers : ((indicesBelow (w.training.numWorkers.getD 0)).map
      Component.trainWorker).count .trainProxy = 0 := by
    rw [List.count_eq_zero, List.mem_map]
    rintro ⟨i, -, h⟩
    cases h
  rw [components, List.count_cons_of_ne (by simp), List.count_append, hrollout, trainingProcesses, h]
  simp only [List.count_cons_self, hworkers]

/-! ## What the environments say -/

/-- The parallelism of a rollout with workers has a controller. -/
theorem exists_controller (h : w.problems = []) (hi : .rolloutWorker i ∈ w.components) :
    ∃ p c, w.rollout.parallelism = some p ∧ p.IsValid ∧ p.isDistributed = true ∧
      w.rollout.parallelism.bind (·.controller) = some c := by
  obtain ⟨p, hp, hdistributed, -⟩ := rolloutWorker_mem_components_iff.mp hi
  have hvalid := parallelism_isValid h p hp
  have hlarge := Parallelism.isDistributed_iff.mp hdistributed
  obtain ⟨c, hc⟩ := Option.isSome_iff_exists.mp (hvalid.controlled hlarge)
  exact ⟨p, c, hp, hvalid, hdistributed, by rw [hp, Option.bind_some, hc]⟩

/-- Rollout workers reach the controller of the main process. -/
theorem rollout_connected (h : w.problems = []) : w.RolloutConnected := by
  constructor
  · intro i hi
    obtain ⟨-, c, -, -, -, hc⟩ := exists_controller h hi
    exact ⟨c.host, (get?_componentEnv ..).trans (congrArg (Option.map Controller.host) hc)⟩
  · intro i hi
    obtain ⟨-, c, -, -, -, hc⟩ := exists_controller h hi
    have hport := congrArg (Option.map (decimal16 ·.port)) hc
    exact ⟨decimal16 c.port, (get?_componentEnv ..).trans hport,
      (get?_componentEnv ..).trans hport⟩
  · rintro ⟨i, hi⟩
    obtain ⟨p, -, hp, hvalid, hdistributed, -⟩ := exists_controller h hi
    have hcount := countP_isRolloutWorker hp hdistributed
    have hsampling := congrArg (Option.map (decimal32 ·.sampling)) hp
    have heval := congrArg (Option.map (decimal32 ·.evalParallelism)) hp
    refine ⟨p.sampling, p.evalParallelism, (get?_componentEnv ..).trans hsampling,
      (get?_componentEnv ..).trans heval, hcount, ?_⟩
    intro value hvalue
    have hread : (w.componentEnv .main).get? "MIN_ENV_SAMPLES" =
        (w.rollout.parallelism.bind (·.minEnvSamples)).map decimal32 := get?_componentEnv ..
    rw [Option.mem_def, hread, hp, Option.bind_some, Option.map_eq_some_iff] at hvalue
    obtain ⟨n, hn, rfl⟩ := hvalue
    -- the minimum is bounded by sampling, and so by the larger parallelism
    have hle := UInt32.le_iff_toNat_le.mp (hvalid.minEnvSamples n hn).2
    exact ⟨n, rfl, by omega⟩

/-- The training processes of parallel mode share a proxy. -/
theorem training_connected (h : w.problems = []) (hmode : w.training.mode = .parallel) :
    w.TrainingConnected := by
  have hvalid := training_isValid h
  obtain ⟨hproxy, hworkers⟩ := hvalid.parallel hmode
  obtain ⟨p, hp⟩ := Option.isSome_iff_exists.mp hproxy
  obtain ⟨n, hn⟩ := Option.isSome_iff_exists.mp hworkers
  refine ⟨count_trainProxy hmode, ⟨0, ?_⟩, p.host, decimal16 p.frontend, decimal16 p.backend,
    ?_⟩
  · rw [trainWorker_mem_components_iff, hn, Option.getD_some]
    exact ⟨hmode, hvalid.numWorkers n hn⟩
  -- the main process is told of the proxy in this mode only
  have hmain : (if w.training.mode = .parallel then w.training.proxy else none) = some p := by
    rw [if_pos hmode, hp]
  have hhost := congrArg (Option.map (·.host)) hp
  have hfrontend := congrArg (Option.map (decimal16 ·.frontend)) hp
  have hbackend := congrArg (Option.map (decimal16 ·.backend)) hp
  have hmainHost := congrArg (Option.map (·.host)) hmain
  have hmainFrontend := congrArg (Option.map (decimal16 ·.frontend)) hmain
  refine ⟨?_, (get?_componentEnv ..).trans hfrontend, (get?_componentEnv ..).trans hbackend,
    (get?_componentEnv ..).trans hmainHost, (get?_componentEnv ..).trans hmainFrontend, ?_⟩
  · exact fun heq => (hvalid.proxy p hp).apart (decimal16_injective heq)
  · exact fun i _ => ⟨(get?_componentEnv ..).trans hhost, (get?_componentEnv ..).trans hbackend⟩

/-- The main process is told of a proxy by two variables. -/
theorem proxy_names : ∀ name ∈ variableNames .main, "TRAIN_PROXY_".toList <+: name.toList →
    name = "TRAIN_PROXY_HOST" ∨ name = "TRAIN_PROXY_FRONTEND_PORT" := by
  simp only [variableNames]
  decide

/-- In simple mode there is nothing of parallel training. -/
theorem training_unconnected (hmode : w.training.mode = .simple) : w.TrainingUnconnected := by
  have hnot : w.training.mode ≠ .parallel := by
    rw [hmode]
    nofun
  refine ⟨?_, ?_, ?_⟩
  · rw [trainProxy_mem_components_iff]
    exact hnot
  · intro i
    rw [trainWorker_mem_components_iff]
    exact fun h => hnot h.1
  · intro name hprefix
    by_cases hname : name ∈ variableNames .main
    · have hmain : (if w.training.mode = .parallel then w.training.proxy else none) = none :=
        if_neg hnot
      have hhost := congrArg (Option.map (·.host)) hmain
      have hfrontend := congrArg (Option.map (decimal16 ·.frontend)) hmain
      rcases proxy_names name hname hprefix with rfl | rfl
      · exact (get?_componentEnv ..).trans hhost
      · exact (get?_componentEnv ..).trans hfrontend
    · exact get?_componentEnv_eq_none hname

/-- The processes of a workflow without problems find each other. -/
theorem connected_of_problems_eq_nil (h : w.problems = []) :
    w.RolloutConnected ∧ (w.training.mode = .parallel → w.TrainingConnected) ∧
      (w.training.mode = .simple → w.TrainingUnconnected) :=
  ⟨rollout_connected h, training_connected h, training_unconnected⟩

/-- A run with workers of both kinds, of which evaluation needs more than sampling. -/
theorem connected_of_problems_eq_nil_parallel :
    let w : Workflow := {
      job := "grid", scenarioPath := ⟨"scenario"⟩, logPath := ⟨"log/grid.txt"⟩
      rollout.parallelism := some {
        sampling := 2, eval := some 3, minEnvSamples := some 2
        controller := some { host := "node-1", port := 5000 } }
      training := { mode := .parallel, numWorkers := some 2,
                    proxy := some { host := "node-2", frontend := 6000, backend := 6001 } } }
    w.problems = [] ∧ w.RolloutConnected ∧
      (w.training.mode = .parallel → w.TrainingConnected) ∧
      (w.training.mode = .simple → w.TrainingUnconnected) := by
  intro w
  have hproblems : w.problems = [] := by decide
  exact ⟨hproblems, connected_of_problems_eq_nil hproblems⟩

end Workflow

end RunPlan
