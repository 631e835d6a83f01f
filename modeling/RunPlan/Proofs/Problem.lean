import RunPlan.Problem
import Mathlib.Data.Option.Basic

/-!
# What a workflow without problems satisfies

`Workflow.problems` puts together the faults of single values. No problem is listed
exactly when no check finds a fault, section by section.

## Key results

- `Workflow.problems_eq_nil_iff`: a workflow without problems, section by section
- `checkJobName_eq_none_iff`, `checkHost_eq_none_iff`: the texts that pass their checks
-/

namespace RunPlan

/-! ## Lists of problems -/

@[simp] theorem problemAt_eq_nil_iff {setting : Setting} {fault : Option Fault} :
    problemAt setting fault = [] ↔ fault = none := by
  cases fault <;> simp [problemAt]

@[simp] theorem problemAtOption_eq_nil_iff {α : Type} {setting : Setting}
    {check : α → Option Fault} {value : Option α} :
    problemAtOption setting check value = [] ↔ ∀ v ∈ value, check v = none := by
  cases value <;> simp [problemAtOption]

@[simp] theorem problemWhen_eq_nil_iff {condition : Bool} {setting : Setting}
    {fault : Fault} : problemWhen condition setting fault = [] ↔ condition = false := by
  cases condition <;> simp [problemWhen]

/-- The problems of an optional section. -/
theorem getD_map_eq_nil_iff {α β : Type} {f : α → List β} {section? : Option α} :
    (section?.map f).getD [] = [] ↔ ∀ s ∈ section?, f s = [] := by
  cases section? <;> simp

/-! ## Single values -/

/-- The names that pass: not empty, not too long, and of the allowed characters. -/
theorem checkJobName_eq_none_iff {name : String} :
    checkJobName name = none ↔
      name ≠ "" ∧ name.utf8ByteSize ≤ maxJobNameLength ∧
        ∀ c ∈ name.toList, isJobNameChar c = true := by
  rw [checkJobName]
  split
  · simp [*]
  split
  · rename_i _ hlong
    simp [Nat.not_le.mpr hlong]
  split <;> rename_i hempty hlong hchars <;> simp_all

/-- The hosts that pass: not empty, and without white space. -/
theorem checkHost_eq_none_iff {host : String} :
    checkHost host = none ↔
      Text.trim host.toList ≠ [] ∧ ∀ c ∈ host.toList, Text.isWhitespace c = false := by
  rw [checkHost]
  split
  · simp [*]
  split <;> simp_all

/-! ## Sections -/

/-- A controller without problems. -/
theorem Parallelism.controllerProblems_eq_nil_iff {p : Parallelism} :
    p.controllerProblems = [] ↔
      (∀ c ∈ p.controller, checkHost c.host = none ∧ checkPort c.port = none) ∧
        (p.controller = none → p.isDistributed = false) := by
  rw [controllerProblems]
  split <;> simp [*]

/-- A `parallelism` section without problems. -/
theorem Parallelism.problems_eq_nil_iff {p : Parallelism} :
    p.problems = [] ↔
      checkPositive p.sampling = none ∧ (∀ n ∈ p.eval, checkPositive n = none) ∧
        (∀ n ∈ p.minEnvSamples, checkPositive n = none) ∧
        p.minEnvSamples.any (p.sampling < ·) = false ∧
        (∀ x ∈ p.graceFactor, checkGraceFactor x = none) ∧ p.controllerProblems = [] := by
  simp only [problems, List.append_eq_nil_iff, problemAt_eq_nil_iff,
    problemAtOption_eq_nil_iff, problemWhen_eq_nil_iff, and_assoc]

/-- A `proxy` section without problems. -/
theorem Proxy.problems_eq_nil_iff {p : Proxy} :
    p.problems = [] ↔
      checkHost p.host = none ∧ checkPort p.frontend = none ∧ checkPort p.backend = none ∧
        p.frontend ≠ p.backend := by
  simp only [problems, List.append_eq_nil_iff, problemAt_eq_nil_iff,
    problemWhen_eq_nil_iff, beq_eq_false_iff_ne, and_assoc]

/-- A `training` section without problems. -/
theorem TrainingSection.problems_eq_nil_iff {t : TrainingSection} {total : Option UInt32} :
    t.problems total = [] ↔
      (∀ p ∈ t.loadPath, checkPath p = none) ∧ t.resumeProblems total = [] ∧
        (∀ c ∈ t.checkpointing, c.problems = []) ∧ (∀ p ∈ t.proxy, p.problems = []) ∧
        (∀ n ∈ t.numWorkers, checkPositive n = none) ∧ t.modeProblems = [] := by
  simp only [problems, List.append_eq_nil_iff, problemAtOption_eq_nil_iff,
    getD_map_eq_nil_iff, and_assoc]

/-- A workflow without problems. -/
theorem Workflow.problems_eq_nil_iff {w : Workflow} :
    w.problems = [] ↔
      checkJobName w.job = none ∧ checkPath w.scenarioPath = none ∧
        checkPath w.logPath = none ∧ w.main.problems = [] ∧
        (∀ p ∈ w.rollout.parallelism, p.problems = []) ∧
        w.training.problems w.main.numEpisodes = [] := by
  simp only [problems, List.append_eq_nil_iff, problemAt_eq_nil_iff, getD_map_eq_nil_iff,
    and_assoc]

end RunPlan
