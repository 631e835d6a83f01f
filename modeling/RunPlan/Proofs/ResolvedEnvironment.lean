import RunPlan.Proofs.Component
import RunPlan.Proofs.Export
import RunPlan.Proofs.PathParts

/-!
# Environments of resolved workflows

Seeing the paths of a workflow from a directory changes the variables that hold paths and no
other one. Four of the paths are variables themselves. The log file of a worker is not: its
path is made from the resolved `log_path` by replacing the file name, so it has to be shown
that it leads where the worker's own log file does when that is seen from the directory. The
two texts can differ, so paths are compared by their parts.

## Key results

- `Workflow.parts_logFile_resolvePaths`: log files are resolved with the path they are made from
- `Workflow.corresponds_componentEnv_resolvePaths`: environments variable by variable
- `Workflow.componentEnv_resolvePaths`: what resolving changes in an environment
-/

namespace RunPlan

/-! ## Log files -/

/-- The name of the log file of a component, next to a log file with a name. -/
def Path.logName (name : String) (c : Component) : String :=
  let ending := match (splitName name).2 with
    | some e => "." ++ e
    | none => ""
  (splitName name).1 ++ "." ++ c.name ++ ending

/-- The log file of a component can stand in a directory. -/
theorem Path.isEntryName_logName {name : String} (h : IsEntryName name) (c : Component) :
    IsEntryName (logName name c) := by
  obtain ⟨x, hx, hdot⟩ := c.exists_mem_name_ne_dot
  have hmem : x ∈ (logName name c).toList := by simp [logName, hx]
  apply isEntryName_of_mem hmem hdot
  have hstem : '/' ∉ (splitName name).1.toList := fun hmem =>
    h.noSeparator (mem_of_splitName.1 hmem)
  simp only [logName, String.toList_append, List.mem_append, not_or]
  refine ⟨⟨⟨hstem, by decide⟩, c.separator_notMem_name⟩, ?_⟩
  split
  · rename_i e hextension
    rw [String.toList_append, List.mem_append, not_or]
    exact ⟨by decide, fun hmem => h.noSeparator (mem_of_splitName.2 e hextension hmem)⟩
  · decide

namespace Workflow

variable {w : Workflow} {c : Component} {name : String} {base : Path}

/-- The log files of components other than the main one are next to its log file. -/
theorem logFile_eq (h : w.logPath.fileName = some name) (hc : c ≠ .main) :
    w.logFile c = w.logPath.withFileName (Path.logName name c) := by
  have hstem : w.logPath.stem = some (Path.splitName name).1 := by
    rw [Path.stem, h]
    rfl
  have hextension : w.logPath.extension = (Path.splitName name).2 := by
    rw [Path.extension, h]
    rfl
  cases c with
  | main => exact absurd rfl hc
  | rolloutWorker i =>
    simp only [logFile, hstem, hextension]
    rfl
  | trainProxy =>
    simp only [logFile, hstem, hextension]
    rfl
  | trainWorker i =>
    simp only [logFile, hstem, hextension]
    rfl

/-- The log file of a component is resolved with the path that it is made from. -/
theorem parts_logFile_resolvePaths (h : w.logPath.fileName = some name) (base : Path)
    (c : Component) :
    ((w.resolvePaths base).logFile c).parts = (base.resolve (w.logFile c)).parts := by
  by_cases hc : c = .main
  · rw [hc]
    rfl
  · have hresolved : (w.resolvePaths base).logPath.fileName = some name :=
      Path.fileName_resolve h base
    have hentry := Path.isEntryName_logName (Path.isEntryName_of_fileName h).1 c
    rw [logFile_eq hresolved hc, logFile_eq h hc]
    exact Path.parts_resolve_withFileName hentry h base

/-! ## Variables -/

/-- The variables that hold paths. -/
def pathVariables : List String :=
  ["SCENARIO_PATH", "LOG_PATH", "LOAD_PATH", "CHECKPOINT_PATH"]

/-- How the value of a variable changes when paths are seen from `base`. -/
def Resolves (base : Path) (name value value' : String) : Prop :=
  if name ∈ pathVariables then (⟨value'⟩ : Path).parts = (base.resolve ⟨value⟩).parts
  else value' = value

/-- A variable that holds no path keeps its value. -/
private theorem resolves_self (hname : name ∉ pathVariables) (value? : Option String) :
    Option.Rel (Resolves base name) value? value? := by
  cases value? with
  | none => exact .none
  | some value => exact .some (by rw [Resolves, if_neg hname])

/-- A variable that holds a path leads where the path does from `base`. -/
private theorem resolves_path (hname : name ∈ pathVariables) {p q : Path}
    (h : q.parts = (base.resolve p).parts) :
    Option.Rel (Resolves base name) (some p.text) (some q.text) := by
  apply Option.Rel.some
  rw [Resolves, if_pos hname]
  exact h

/-- A variable that may hold a path. -/
private theorem resolves_map (hname : name ∈ pathVariables) (p? : Option Path) :
    Option.Rel (Resolves base name) (p?.map (·.text)) ((p?.map base.resolve).map (·.text)) := by
  cases p? with
  | none => exact .none
  | some p => exact resolves_path hname rfl

/-- Whether lists of variables have the same names, with values that resolve. -/
def ResolveTo (base : Path) : List (String × Option String) → List (String × Option String) → Prop :=
  List.Forall₂ fun var var' =>
    var.1 = var'.1 ∧ Option.Rel (Resolves base var.1) var.2 var'.2

theorem resolveTo_self {vars : List (String × Option String)}
    (h : ∀ name ∈ vars.map Prod.fst, name ∉ pathVariables) : ResolveTo base vars vars :=
  List.forall₂_same.mpr fun var hvar =>
    ⟨rfl, resolves_self (h var.1 (List.mem_map_of_mem hvar)) var.2⟩

theorem resolveTo_commonVariables (h : w.logPath.fileName = some name) (base : Path)
    (c : Component) :
    ResolveTo base (w.commonVariables c) ((w.resolvePaths base).commonVariables c) := by
  have hlevels : (w.resolvePaths base).loggingFor c = w.loggingFor c := by
    cases c <;> rfl
  simp only [ResolveTo, commonVariables, hlevels, List.forall₂_cons, List.Forall₂.nil, true_and,
    and_true]
  exact ⟨resolves_self (by decide) _, resolves_self (by decide) _, resolves_path (by decide) rfl,
    resolves_path (by decide) (parts_logFile_resolvePaths h base c), resolves_self (by decide) _,
    resolves_self (by decide) _, resolves_self (by decide) _⟩

theorem resolveTo_mainVariables (w : Workflow) (base : Path) :
    ResolveTo base w.mainVariables (w.resolvePaths base).mainVariables := by
  have hpath : Option.Rel (Resolves base "CHECKPOINT_PATH")
      (w.training.checkpointing.map (·.path.text))
      ((w.resolvePaths base).training.checkpointing.map (·.path.text)) := by
    simpa [resolvePaths, Function.comp_def] using
      resolves_map (by decide) (w.training.checkpointing.map (·.path))
  have hinterval : (w.resolvePaths base).training.checkpointing.map (decimal32 ·.interval) =
      w.training.checkpointing.map (decimal32 ·.interval) := by
    simp [resolvePaths, Function.comp_def]
  simp only [ResolveTo, mainVariables, List.forall₂_cons, List.Forall₂.nil, true_and, and_true]
  refine ⟨resolves_self (by decide) _, resolves_self (by decide) _, resolves_self (by decide) _,
    resolves_map (by decide) w.training.loadPath, resolves_self (by decide) _, hpath, ?_,
    resolves_self (by decide) _, resolves_self (by decide) _, resolves_self (by decide) _,
    resolves_self (by decide) _, resolves_self (by decide) _, resolves_self (by decide) _,
    resolves_self (by decide) _⟩
  rw [hinterval]
  exact resolves_self (by decide) _

/-- Seeing the paths from a directory changes the variables that hold paths. -/
theorem corresponds_componentEnv_resolvePaths (h : w.logPath.fileName = some name) (base : Path)
    (c : Component) :
    (w.componentEnv c).Corresponds (Resolves base) ((w.resolvePaths base).componentEnv c) := by
  -- only the main component has paths among the variables of its own
  have hown : ResolveTo base (w.ownVariables c) ((w.resolvePaths base).ownVariables c) := by
    cases c with
    | main => exact resolveTo_mainVariables w base
    | rolloutWorker i => exact resolveTo_self (by simp [ownVariables, pathVariables])
    | trainProxy => exact resolveTo_self (by simp [ownVariables, pathVariables])
    | trainWorker i => exact resolveTo_self (by simp [ownVariables, pathVariables])
  rw [componentEnv_eq, componentEnv_eq]
  exact Environment.Corresponds.setOptions
    (List.rel_append (resolveTo_commonVariables h base c) hown) .nil

/-! ## What resolving changes -/

/-- Seeing the paths of a workflow from a directory keeps the names of the variables of every
    component, and the values of those that hold no path. The others lead where the path that
    was there does: to the path itself when it is absolute, and to the path joined to the
    directory otherwise. So do log files. -/
theorem componentEnv_resolvePaths (h : w.logPath.fileName = some name) (base : Path)
    (c : Component) :
    let env := w.componentEnv c
    let resolved := (w.resolvePaths base).componentEnv c
    resolved.map Prod.fst = env.map Prod.fst ∧
      (∀ key ∉ pathVariables, resolved.get? key = env.get? key) ∧
      (∀ key ∈ pathVariables, ∀ value, env.get? key = some value →
        ∃ value', resolved.get? key = some value' ∧
          (⟨value'⟩ : Path).parts =
            (if Path.isAbsolute ⟨value⟩ then ⟨value⟩ else base.join ⟨value⟩ : Path).parts) ∧
      ((w.resolvePaths base).logFile c).parts = (base.resolve (w.logFile c)).parts := by
  have hcorresponds := corresponds_componentEnv_resolvePaths h base c
  refine ⟨hcorresponds.map_fst_eq, ?kept, ?resolved, parts_logFile_resolvePaths h base c⟩
  case kept =>
    intro key hkey
    have hrel := hcorresponds.get? key
    generalize (w.componentEnv c).get? key = value? at hrel ⊢
    generalize ((w.resolvePaths base).componentEnv c).get? key = value'? at hrel ⊢
    cases hrel with
    | none => rfl
    | some hvalue =>
      rw [Resolves, if_neg hkey] at hvalue
      rw [hvalue]
  case resolved =>
    intro key hkey value hvalue
    have hrel := hcorresponds.get? key
    rw [hvalue] at hrel
    generalize ((w.resolvePaths base).componentEnv c).get? key = value'? at hrel ⊢
    cases hrel with
    | some hvalue' =>
      rw [Resolves, if_pos hkey] at hvalue'
      exact ⟨_, rfl, hvalue'⟩

/-- A log file that is written with a leading `.`, a repeated separator and two dots in its
    name. For the second worker it becomes another one, in the directory above. -/
theorem componentEnv_resolvePaths_worker :
    let w : Workflow := {
      job := "grid", scenarioPath := ⟨"/scenarios/a.toml"⟩, logPath := ⟨"./log//run.v2.txt/."⟩
      rollout.parallelism := some {
        sampling := 2, controller := some { host := "node-1", port := 5000 } } }
    let env := w.componentEnv (.rolloutWorker 1)
    let resolved := (w.resolvePaths ⟨".."⟩).componentEnv (.rolloutWorker 1)
    w.logPath.fileName = some "run.v2.txt" ∧
      env.get? "LOG_PATH" = some "./log/run.v2.rollout_worker.1.txt" ∧
      ∃ value, resolved.get? "LOG_PATH" = some value ∧
        (⟨value⟩ : Path).parts =
          [.up, .entry "log", .entry "run.v2.rollout_worker.1.txt"] := by
  intro w env resolved
  have hname : w.logPath.fileName = some "run.v2.txt" := by decide
  have hold : env.get? "LOG_PATH" = some "./log/run.v2.rollout_worker.1.txt" := by decide
  obtain ⟨-, -, hresolved, -⟩ := componentEnv_resolvePaths hname ⟨".."⟩ (.rolloutWorker 1)
  obtain ⟨value, hnew, hparts⟩ := hresolved "LOG_PATH" (by decide) _ hold
  exact ⟨hname, hold, value, hnew, hparts.trans (by decide)⟩

end Workflow

end RunPlan
