import RunPlan.Export
import RunPlan.Proofs.Component
import RunPlan.Proofs.Decimal
import RunPlan.Proofs.EnvFile
import RunPlan.Proofs.Environment
import RunPlan.Proofs.Numeral
import RunPlan.Proofs.Path
import RunPlan.Proofs.Problem

/-!
# Exported environments and their files

`Workflow.allVariables` lists what a component is told, and `componentEnv` is the
environment made of it (`mem_componentEnv_iff`). All names are names to the reader of
env files. Of the values, only paths are not checked character by character, so they are
the only way for a line feed to get into an environment; and there it breaks the file.

## Key results

- `mem_componentEnv_iff`, `get?_componentEnv`: the variables of a component
- `envByComponent_eq`: the environments of all components
- `isName_of_mem_componentEnv`: their names can be written in an env file
- `feed_notMem_componentEnv`: their values hold no line feed unless a path does
- `parse_render_componentEnv_iff`: the exact condition for env files to be read back
-/

namespace RunPlan.Workflow

variable {w : Workflow} {c : Component}

/-! ## Numbers -/

theorem decimal32_injective : Function.Injective decimal32 :=
  fun _ _ h => UInt32.toNat_inj.mp (Numeral.ofNat_injective h)

theorem decimal16_injective : Function.Injective decimal16 :=
  fun _ _ h => UInt16.toNat_inj.mp (Numeral.ofNat_injective h)

/-! ## The variables of a component -/

/-- The variables that every component gets. -/
def commonVariables (w : Workflow) (c : Component) : List (String × Option String) :=
  [("JOB", some w.job), ("COMPONENT", some c.name),
    ("SCENARIO_PATH", some w.scenarioPath.text), ("LOG_PATH", some (w.logFile c).text),
    ("LOG_LEVEL_STDOUT", some (w.loggingFor c).stdout.name),
    ("LOG_LEVEL_FILE", some (w.loggingFor c).file.name),
    ("TRAIN_MODE", some w.training.mode.name)]

/-- The variables that the main component gets on top. -/
def mainVariables (w : Workflow) : List (String × Option String) :=
  let parallelism := w.rollout.parallelism
  let checkpointing := w.training.checkpointing
  let proxy := if w.training.mode = .parallel then w.training.proxy else none
  [("NUM_EPISODES", w.main.numEpisodes.map decimal32),
    ("NUM_STEPS", w.main.numSteps.map decimal32),
    ("EVAL_SCHEDULE", w.main.evalSchedule.map EvalSchedule.envValue),
    ("LOAD_PATH", w.training.loadPath.map (·.text)),
    ("LOAD_EPISODE", w.training.loadEpisode.map decimal32),
    ("CHECKPOINT_PATH", checkpointing.map (·.path.text)),
    ("CHECKPOINT_INTERVAL", checkpointing.map (decimal32 ·.interval)),
    ("ENV_SAMPLE_PARALLELISM", parallelism.map (decimal32 ·.sampling)),
    ("ENV_EVAL_PARALLELISM", parallelism.map (decimal32 ·.evalParallelism)),
    ("MIN_ENV_SAMPLES", (parallelism.bind (·.minEnvSamples)).map decimal32),
    ("GRACE_FACTOR", (parallelism.bind (·.graceFactor)).map Binary64.toPlain),
    ("ROLLOUT_CONTROLLER_PORT", (parallelism.bind (·.controller)).map (decimal16 ·.port)),
    ("TRAIN_PROXY_HOST", proxy.map (·.host)),
    ("TRAIN_PROXY_FRONTEND_PORT", proxy.map (decimal16 ·.frontend))]

/-- The variables that a component gets on top of the common ones. -/
def ownVariables (w : Workflow) : Component → List (String × Option String)
  | .main => w.mainVariables
  | .rolloutWorker i =>
    let controller := w.rollout.parallelism.bind (·.controller)
    [("ID", some (decimal32 i)), ("ROLLOUT_CONTROLLER_HOST", controller.map (·.host)),
      ("ROLLOUT_CONTROLLER_PORT", controller.map (decimal16 ·.port))]
  | .trainProxy =>
    [("TRAIN_PROXY_FRONTEND_PORT", w.training.proxy.map (decimal16 ·.frontend)),
      ("TRAIN_PROXY_BACKEND_PORT", w.training.proxy.map (decimal16 ·.backend))]
  | .trainWorker i =>
    [("ID", some (decimal32 i)), ("TRAIN_PROXY_HOST", w.training.proxy.map (·.host)),
      ("TRAIN_PROXY_BACKEND_PORT", w.training.proxy.map (decimal16 ·.backend))]

/-- The variables of a component; those without a value are not set. -/
def allVariables (w : Workflow) (c : Component) : List (String × Option String) :=
  w.commonVariables c ++ w.ownVariables c

/-- An environment is made of the variables of its component. -/
theorem componentEnv_eq (w : Workflow) (c : Component) :
    w.componentEnv c = Environment.empty.setOptions (w.allVariables c) := by
  cases c <;> rfl

/-- The names of the variables of a component. -/
def variableNames : Component → List String
  | .main => ["JOB", "COMPONENT", "SCENARIO_PATH", "LOG_PATH", "LOG_LEVEL_STDOUT",
      "LOG_LEVEL_FILE", "TRAIN_MODE", "NUM_EPISODES", "NUM_STEPS", "EVAL_SCHEDULE",
      "LOAD_PATH", "LOAD_EPISODE", "CHECKPOINT_PATH", "CHECKPOINT_INTERVAL",
      "ENV_SAMPLE_PARALLELISM", "ENV_EVAL_PARALLELISM", "MIN_ENV_SAMPLES", "GRACE_FACTOR",
      "ROLLOUT_CONTROLLER_PORT", "TRAIN_PROXY_HOST", "TRAIN_PROXY_FRONTEND_PORT"]
  | .rolloutWorker _ => ["JOB", "COMPONENT", "SCENARIO_PATH", "LOG_PATH",
      "LOG_LEVEL_STDOUT", "LOG_LEVEL_FILE", "TRAIN_MODE", "ID", "ROLLOUT_CONTROLLER_HOST",
      "ROLLOUT_CONTROLLER_PORT"]
  | .trainProxy => ["JOB", "COMPONENT", "SCENARIO_PATH", "LOG_PATH", "LOG_LEVEL_STDOUT",
      "LOG_LEVEL_FILE", "TRAIN_MODE", "TRAIN_PROXY_FRONTEND_PORT",
      "TRAIN_PROXY_BACKEND_PORT"]
  | .trainWorker _ => ["JOB", "COMPONENT", "SCENARIO_PATH", "LOG_PATH",
      "LOG_LEVEL_STDOUT", "LOG_LEVEL_FILE", "TRAIN_MODE", "ID", "TRAIN_PROXY_HOST",
      "TRAIN_PROXY_BACKEND_PORT"]

/-- The names do not depend on the workflow. -/
theorem map_fst_allVariables (w : Workflow) (c : Component) :
    (w.allVariables c).map Prod.fst = variableNames c := by
  cases c <;> rfl

/-- No component gets a name twice. -/
theorem variableNames_nodup (c : Component) : (variableNames c).Nodup := by
  cases c <;> simp only [variableNames] <;> decide

/-- The variables of a component are those of its list that have a value. -/
theorem mem_componentEnv_iff {name value : String} :
    (name, value) ∈ w.componentEnv c ↔ (name, some value) ∈ w.allVariables c := by
  rw [componentEnv_eq]
  apply Environment.mem_setOptions_iff
  rw [map_fst_allVariables]
  exact variableNames_nodup c

/-- What a component finds under a name. -/
theorem get?_componentEnv (w : Workflow) (c : Component) (name : String) :
    (w.componentEnv c).get? name = ((w.allVariables c).lookup name).join := by
  rw [componentEnv_eq]
  apply Environment.get?_setOptions
  rw [map_fst_allVariables]
  exact variableNames_nodup c

/-- A name that a component has no variable for is not set. -/
theorem get?_componentEnv_eq_none {name : String} (h : name ∉ variableNames c) :
    (w.componentEnv c).get? name = none := by
  rw [← map_fst_allVariables w] at h
  rw [get?_componentEnv, Environment.lookup_eq_none h]
  rfl

/-- Every name can be written in an env file. -/
theorem isName_of_mem_variableNames {name : String} (h : name ∈ variableNames c) :
    EnvFile.IsName name.toList := by
  have hall : ∀ name ∈ variableNames c, EnvFile.IsName name.toList := by
    cases c <;> simp only [variableNames] <;> decide
  exact hall name h

/-- Every name in the environment of a component can be written in an env file. -/
theorem isName_of_mem_componentEnv :
    ∀ pair ∈ w.componentEnv c, EnvFile.IsName pair.1.toList := by
  intro pair hpair
  apply isName_of_mem_variableNames (c := c)
  rw [← map_fst_allVariables w]
  exact List.mem_map_of_mem (f := Prod.fst) (mem_componentEnv_iff.mp hpair)

/-! ## All environments -/

/-- A map that is filled from components in their order keeps all of them, in this order. -/
theorem foldr_addEnvironment {components : List Component}
    (h : components.Pairwise fun c d => c.before d = true) (env : Component → Environment) :
    components.foldr (fun c envs => addEnvironment c (env c) envs) [] =
      components.map fun c => (c, env c) := by
  induction components with
  | nil => rfl
  | cons c components ih =>
    obtain ⟨hfirst, hrest⟩ := List.pairwise_cons.mp h
    rw [List.foldr_cons, ih hrest, List.map_cons]
    cases components with
    | nil => rfl
    | cons d components => exact if_pos (hfirst d List.mem_cons_self)

/-- There is one environment for each component. -/
theorem envByComponent_eq (w : Workflow) :
    w.envByComponent = w.components.map fun c => (c, w.componentEnv c) :=
  foldr_addEnvironment w.components_pairwise w.componentEnv

/-! ## Line feeds in values -/

/-- Digits are no line feeds. -/
private theorem feed_notMem_of_digits {cs : List Char}
    (h : ∀ c ∈ cs, Text.isDigit c = true) : '\n' ∉ cs :=
  fun hfeed => Bool.noConfusion (h _ hfeed)

/-- Numerals hold no line feeds. -/
private theorem feed_notMem_ofNat (n : Nat) : '\n' ∉ (Numeral.ofNat n).toList :=
  feed_notMem_of_digits fun _ => Numeral.isDigit_of_mem_ofNat

/-- A joined text holds no line feed when the pieces and the separator hold none. -/
private theorem feed_notMem_join {separator : String} {items : List String}
    (hseparator : '\n' ∉ separator.toList) (hitems : ∀ item ∈ items, '\n' ∉ item.toList) :
    '\n' ∉ (Text.join separator items).toList := by
  intro hfeed
  rw [Text.join, String.toList_intercalate] at hfeed
  rcases Text.mem_intercalate hfeed with hfeed | ⟨cs, hcs, hfeed⟩
  · exact hseparator hfeed
  · obtain ⟨item, hitem, rfl⟩ := List.mem_map.mp hcs
    exact hitems item hitem hfeed

/-- The exported form of a schedule holds no line feeds. -/
private theorem feed_notMem_envValue (s : EvalSchedule) : '\n' ∉ s.envValue.toList := by
  rw [EvalSchedule.envValue]
  split
  · exact feed_notMem_ofNat _
  · apply feed_notMem_join (by decide)
    intro item hitem
    obtain ⟨e, -, rfl⟩ := List.mem_map.mp hitem
    exact feed_notMem_ofNat _

/-- A number without an exponent holds no line feeds. -/
private theorem feed_notMem_toPlain (x : Binary64) : '\n' ∉ x.toPlain.toList := by
  have hsign : '\n' ∉ x.signText.toList := by
    rw [Binary64.signText]
    split <;> decide
  rw [Binary64.toPlain, Binary64.toPositional, Binary64.nonFiniteText]
  split
  · split
    · decide
    · simp [String.toList_append, hsign]
  split
  · simp [String.toList_append, hsign]
  · rw [String.toList_append, List.mem_append, not_or]
    refine ⟨hsign, fun hfeed => ?_⟩
    rcases Binary64.mem_positional hfeed with hdigit | hpoint | hwhole
    · exact Bool.noConfusion hdigit
    · exact absurd hpoint (by decide)
    · exact absurd hwhole (by decide)

/-- The name of a component holds no line feeds. -/
theorem feed_notMem_name (c : Component) : '\n' ∉ c.name.toList := by
  cases c with
  | main => decide
  | trainProxy => decide
  | rolloutWorker i => simp [Component.name, String.toList_append, feed_notMem_ofNat]
  | trainWorker i => simp [Component.name, String.toList_append, feed_notMem_ofNat]

/-- A job name that passes holds no line feeds. -/
private theorem feed_notMem_job {name : String} (h : checkJobName name = none) :
    '\n' ∉ name.toList :=
  fun hfeed => Bool.noConfusion ((checkJobName_eq_none_iff.mp h).2.2 _ hfeed)

/-- A host that passes holds no line feeds. -/
private theorem feed_notMem_host {host : String} (h : checkHost host = none) :
    '\n' ∉ host.toList :=
  fun hfeed => Bool.noConfusion ((checkHost_eq_none_iff.mp h).2 _ hfeed)

/-! ## Paths of a document -/

/-- The paths that a document gives. -/
def paths (w : Workflow) : List Path :=
  [w.scenarioPath, w.logPath] ++ w.training.loadPath.toList ++
    (w.training.checkpointing.map (·.path)).toList

/-- A log file holds no line feeds when the path it is made from holds none. -/
private theorem feed_notMem_logFile (hjob : '\n' ∉ w.job.toList)
    (hlog : '\n' ∉ w.logPath.text.toList) (c : Component) :
    '\n' ∉ (w.logFile c).text.toList := by
  have hstem : '\n' ∉ (w.logPath.stem.getD w.job).toList := by
    cases hstem : w.logPath.stem with
    | none => exact hjob
    | some stem => exact fun hfeed => hlog (Path.mem_of_stem hstem hfeed)
  have hother (name : String) (hname : '\n' ∉ name.toList) :
      '\n' ∉ (w.logPath.withFileName name).text.toList := by
    intro hfeed
    rcases Path.mem_withFileName hfeed with hfeed | hfeed | hfeed
    · exact absurd hfeed (by decide)
    · exact hlog hfeed
    · exact hname hfeed
  rw [logFile.eq_def]
  split
  · exact hlog
  · apply hother
    simp only [String.toList_append, List.mem_append, not_or]
    refine ⟨⟨⟨hstem, by decide⟩, feed_notMem_name c⟩, ?_⟩
    split
    · rename_i e hextension
      rw [String.toList_append, List.mem_append, not_or]
      exact ⟨by decide, fun hfeed => hlog (Path.mem_of_extension hextension hfeed)⟩
    · decide

/-! ## Values of a workflow without problems -/

/-- The values that every component gets hold no line feeds. -/
private theorem feed_notMem_commonVariables (hjob : '\n' ∉ w.job.toList)
    (hscenario : '\n' ∉ w.scenarioPath.text.toList) (hlog : '\n' ∉ w.logPath.text.toList)
    {name value : String} (h : (name, some value) ∈ w.commonVariables c) :
    '\n' ∉ value.toList := by
  have hlevel (level : LogLevel) : '\n' ∉ level.name.toList := by
    cases level <;> decide
  have hmode : '\n' ∉ w.training.mode.name.toList := by
    cases w.training.mode <;> decide
  simp only [commonVariables, List.mem_cons, Prod.mk.injEq, Option.some.injEq,
    List.not_mem_nil, or_false] at h
  obtain ⟨-, rfl⟩ | ⟨-, rfl⟩ | ⟨-, rfl⟩ | ⟨-, rfl⟩ | ⟨-, rfl⟩ | ⟨-, rfl⟩ | ⟨-, rfl⟩ := h
  · exact hjob
  · exact feed_notMem_name c
  · exact hscenario
  · exact feed_notMem_logFile hjob hlog c
  · exact hlevel _
  · exact hlevel _
  · exact hmode

/-- An optional value holds no line feeds when what it shows holds none. -/
private theorem feed_notMem_of_map {α : Type} {show? : α → String} {source : Option α}
    (hsource : ∀ a ∈ source, '\n' ∉ (show? a).toList) {value : String}
    (h : some value = source.map show?) : '\n' ∉ value.toList := by
  obtain ⟨a, ha, rfl⟩ := Option.map_eq_some_iff.mp h.symm
  exact hsource a ha

/-- The hosts of the rollout controller hold no line feeds. -/
private theorem feed_notMem_controller (h : w.problems = []) :
    ∀ controller ∈ w.rollout.parallelism.bind (·.controller),
      '\n' ∉ controller.host.toList := by
  intro controller hcontroller
  obtain ⟨p, hp, hc⟩ := Option.bind_eq_some_iff.mp hcontroller
  obtain ⟨-, -, -, -, hrollout, -⟩ := problems_eq_nil_iff.mp h
  obtain ⟨-, -, -, -, -, hproblems⟩ := Parallelism.problems_eq_nil_iff.mp (hrollout p hp)
  have hhost := (Parallelism.controllerProblems_eq_nil_iff.mp hproblems).1 _ hc
  exact feed_notMem_host hhost.1

/-- The hosts of the training proxy hold no line feeds. -/
private theorem feed_notMem_proxy (h : w.problems = []) :
    ∀ proxy ∈ w.training.proxy, '\n' ∉ proxy.host.toList := by
  intro proxy hproxy
  obtain ⟨-, -, -, -, -, htraining⟩ := problems_eq_nil_iff.mp h
  obtain ⟨-, -, -, hproxies, -⟩ := TrainingSection.problems_eq_nil_iff.mp htraining
  exact feed_notMem_host (Proxy.problems_eq_nil_iff.mp (hproxies proxy hproxy)).1

/-- The texts that a workflow gives besides its paths hold no line feeds. -/
structure HasPlainTexts (w : Workflow) : Prop where
  job : '\n' ∉ w.job.toList
  controller : ∀ controller ∈ w.rollout.parallelism.bind (·.controller),
    '\n' ∉ controller.host.toList
  proxy : ∀ proxy ∈ w.training.proxy, '\n' ∉ proxy.host.toList

/-- The texts of a workflow without problems have been checked for line feeds. -/
theorem hasPlainTexts_of_problems (h : w.problems = []) : w.HasPlainTexts where
  job := feed_notMem_job (problems_eq_nil_iff.mp h).1
  controller := feed_notMem_controller h
  proxy := feed_notMem_proxy h

/-- The values of the main component hold no line feeds when no path does. -/
private theorem feed_notMem_mainVariables (h : w.HasPlainTexts)
    (hload : ∀ p ∈ w.training.loadPath, '\n' ∉ p.text.toList)
    (hcheckpoint : ∀ c ∈ w.training.checkpointing, '\n' ∉ c.path.text.toList)
    {name value : String} (hmem : (name, some value) ∈ w.mainVariables) :
    '\n' ∉ value.toList := by
  -- a host is checked for line feeds itself, while paths are left to the hypotheses
  have hproxy : ∀ proxy ∈ if w.training.mode = .parallel then w.training.proxy else none,
      '\n' ∉ proxy.host.toList := by
    split
    · exact h.proxy
    · simp
  simp only [mainVariables, List.mem_cons, Prod.mk.injEq, List.not_mem_nil, or_false] at hmem
  obtain ⟨-, hv⟩ | ⟨-, hv⟩ | ⟨-, hv⟩ | ⟨-, hv⟩ | ⟨-, hv⟩ | ⟨-, hv⟩ | ⟨-, hv⟩ | ⟨-, hv⟩ |
    ⟨-, hv⟩ | ⟨-, hv⟩ | ⟨-, hv⟩ | ⟨-, hv⟩ | ⟨-, hv⟩ | ⟨-, hv⟩ := hmem
  · exact feed_notMem_of_map (fun _ _ => feed_notMem_ofNat _) hv
  · exact feed_notMem_of_map (fun _ _ => feed_notMem_ofNat _) hv
  · exact feed_notMem_of_map (fun _ _ => feed_notMem_envValue _) hv
  · exact feed_notMem_of_map hload hv
  · exact feed_notMem_of_map (fun _ _ => feed_notMem_ofNat _) hv
  · exact feed_notMem_of_map hcheckpoint hv
  · exact feed_notMem_of_map (fun _ _ => feed_notMem_ofNat _) hv
  · exact feed_notMem_of_map (fun _ _ => feed_notMem_ofNat _) hv
  · exact feed_notMem_of_map (fun _ _ => feed_notMem_ofNat _) hv
  · exact feed_notMem_of_map (fun _ _ => feed_notMem_ofNat _) hv
  · exact feed_notMem_of_map (fun _ _ => feed_notMem_toPlain _) hv
  · exact feed_notMem_of_map (fun _ _ => feed_notMem_ofNat _) hv
  · exact feed_notMem_of_map hproxy hv
  · exact feed_notMem_of_map (fun _ _ => feed_notMem_ofNat _) hv

/-- The values of a component's own variables hold no line feeds when no path does. -/
private theorem feed_notMem_ownVariables (h : w.HasPlainTexts)
    (hload : ∀ p ∈ w.training.loadPath, '\n' ∉ p.text.toList)
    (hcheckpoint : ∀ c ∈ w.training.checkpointing, '\n' ∉ c.path.text.toList)
    {name value : String} (hmem : (name, some value) ∈ w.ownVariables c) :
    '\n' ∉ value.toList := by
  cases c with
  | main => exact feed_notMem_mainVariables h hload hcheckpoint hmem
  | rolloutWorker i =>
    simp only [ownVariables, List.mem_cons, Prod.mk.injEq, Option.some.injEq,
      List.not_mem_nil, or_false] at hmem
    obtain ⟨-, rfl⟩ | ⟨-, hv⟩ | ⟨-, hv⟩ := hmem
    · exact feed_notMem_ofNat _
    · exact feed_notMem_of_map h.controller hv
    · exact feed_notMem_of_map (fun _ _ => feed_notMem_ofNat _) hv
  | trainProxy =>
    simp only [ownVariables, List.mem_cons, Prod.mk.injEq, List.not_mem_nil, or_false] at hmem
    obtain ⟨-, hv⟩ | ⟨-, hv⟩ := hmem
    · exact feed_notMem_of_map (fun _ _ => feed_notMem_ofNat _) hv
    · exact feed_notMem_of_map (fun _ _ => feed_notMem_ofNat _) hv
  | trainWorker i =>
    simp only [ownVariables, List.mem_cons, Prod.mk.injEq, Option.some.injEq,
      List.not_mem_nil, or_false] at hmem
    obtain ⟨-, rfl⟩ | ⟨-, hv⟩ | ⟨-, hv⟩ := hmem
    · exact feed_notMem_ofNat _
    · exact feed_notMem_of_map h.proxy hv
    · exact feed_notMem_of_map (fun _ _ => feed_notMem_ofNat _) hv

/-- No value holds a line feed when neither a path nor another text of the workflow does. -/
theorem feed_notMem_of_mem_componentEnv (h : w.HasPlainTexts)
    (hpaths : ∀ p ∈ w.paths, '\n' ∉ p.text.toList) :
    ∀ pair ∈ w.componentEnv c, '\n' ∉ pair.2.toList := by
  simp only [paths, List.mem_append, List.mem_cons, List.not_mem_nil, or_false,
    Option.mem_toList, Option.map_eq_some_iff] at hpaths
  have hload : ∀ p ∈ w.training.loadPath, '\n' ∉ p.text.toList :=
    fun p hp => hpaths p (Or.inl (Or.inr hp))
  have hcheckpoint : ∀ c ∈ w.training.checkpointing, '\n' ∉ c.path.text.toList :=
    fun c hc => hpaths c.path (Or.inr ⟨c, hc, rfl⟩)
  intro pair hpair
  have hmem : (pair.1, some pair.2) ∈ w.allVariables c := mem_componentEnv_iff.mp hpair
  rcases List.mem_append.mp hmem with hmem | hmem
  · exact feed_notMem_commonVariables h.job
      (hpaths _ (Or.inl (Or.inl (Or.inl rfl)))) (hpaths _ (Or.inl (Or.inl (Or.inr rfl)))) hmem
  · exact feed_notMem_ownVariables h hload hcheckpoint hmem

/-- No value holds a line feed when no path of the document does. -/
theorem feed_notMem_componentEnv (h : w.problems = [])
    (hpaths : ∀ p ∈ w.paths, '\n' ∉ p.text.toList) :
    ∀ pair ∈ w.componentEnv c, '\n' ∉ pair.2.toList :=
  feed_notMem_of_mem_componentEnv (hasPlainTexts_of_problems h) hpaths

/-- Every path of the document is a value in the environment of the main component. -/
theorem exists_mem_componentEnv_main {p : Path} (h : p ∈ w.paths) :
    ∃ name, (name, p.text) ∈ w.componentEnv .main := by
  simp only [paths, List.mem_append, List.mem_cons, List.not_mem_nil, or_false,
    Option.mem_toList, Option.map_eq_some_iff] at h
  have hmain (name : String) {value : String} (h : (name, some value) ∈ w.allVariables .main) :
      ∃ name, (name, value) ∈ w.componentEnv .main :=
    ⟨name, mem_componentEnv_iff.mpr h⟩
  rcases h with ((rfl | rfl) | hload) | ⟨checkpointing, hcheckpointing, rfl⟩
  · exact hmain "SCENARIO_PATH" (by simp [allVariables, commonVariables])
  · exact hmain "LOG_PATH" (by simp [allVariables, commonVariables, logFile])
  · exact hmain "LOAD_PATH"
      (by simp [allVariables, ownVariables, mainVariables, hload])
  · exact hmain "CHECKPOINT_PATH"
      (by simp [allVariables, ownVariables, mainVariables, hcheckpointing])

/-! ## Env files -/

/-- The env files of a workflow without problems are read back as they were written
    exactly when no path of the document holds a line feed. -/
theorem parse_render_componentEnv_iff (w : Workflow) (h : w.problems = []) :
    (∀ c ∈ w.components, EnvFile.parse (EnvFile.render (w.componentEnv c)) = w.componentEnv c) ↔
      ∀ p ∈ w.paths, '\n' ∉ p.text.toList := by
  simp only [EnvFile.parse_render_iff isName_of_mem_componentEnv]
  constructor
  · intro hvalues p hp
    obtain ⟨name, hname⟩ := exists_mem_componentEnv_main hp
    exact hvalues .main List.mem_cons_self _ hname
  · intro hpaths c _
    exact feed_notMem_componentEnv h hpaths

/-- The condition on the workflow is met where a run with workers writes several files. -/
theorem parse_render_componentEnv_distributed :
    let w : Workflow := {
      job := "grid", scenarioPath := ⟨"scenario dir/a.toml"⟩, logPath := ⟨"log/\"run\".txt"⟩
      rollout.parallelism := some {
        sampling := 2, controller := some { host := "node-1", port := 5000 } } }
    w.problems = [] ∧
      ∀ c ∈ w.components,
        EnvFile.parse (EnvFile.render (w.componentEnv c)) = w.componentEnv c := by
  intro w
  have hproblems : w.problems = [] := by decide
  exact ⟨hproblems, (parse_render_componentEnv_iff w hproblems).mpr (by decide)⟩

/-- A line feed in a path passes every check and breaks the file. -/
theorem parse_render_componentEnv_feed :
    let w := Workflow.minimal "job" ⟨"a\nb"⟩ ⟨"l"⟩
    w.problems = [] ∧ .main ∈ w.components ∧
      EnvFile.parse (EnvFile.render (w.componentEnv .main)) ≠ w.componentEnv .main := by
  intro w
  refine ⟨by decide, List.mem_cons_self, fun hread => ?_⟩
  obtain ⟨name, hname⟩ := exists_mem_componentEnv_main (w := w) (p := ⟨"a\nb"⟩)
    List.mem_cons_self
  have hvalues := (EnvFile.parse_render_iff isName_of_mem_componentEnv).mp hread
  have hfeed : '\n' ∈ ("a\nb" : String).toList := by decide
  exact hvalues _ hname hfeed

end RunPlan.Workflow
