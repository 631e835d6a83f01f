import RunPlan.Proofs.Binary64
import RunPlan.Proofs.Problem
import RunPlan.Proofs.Text
import Mathlib.Tactic.MkIffOfInductiveProp

/-!
# Valid workflows

`Workflow.IsValid` says which workflows can be run, section by section and without
reference to the checks: in terms of lengths, characters, numbers, and fields that need
each other. The checks find a problem in exactly the others.

## Key results

- `Workflow.problems_eq_nil_iff_isValid`: no problem is found exactly in valid workflows
-/

namespace RunPlan

/-- The number that a finite bit pattern stands for. -/
def Binary64.value (x : Binary64) : ℚ :=
  (if x.isNegative then -1 else 1) * (x.significand * 2 ^ x.exponent)

/-! ## What is valid -/

/-- A job name has 1 to 128 bytes, all of them ASCII letters, digits, `_`, `-` or `.`. -/
@[mk_iff] structure IsJobName (name : String) : Prop where
  nonempty : 1 ≤ name.utf8ByteSize
  short : name.utf8ByteSize ≤ 128
  chars : ∀ c ∈ name.toList, ('a' ≤ c ∧ c ≤ 'z') ∨ ('A' ≤ c ∧ c ≤ 'Z') ∨
    ('0' ≤ c ∧ c ≤ '9') ∨ c = '_' ∨ c = '-' ∨ c = '.'

/-- A path has 1 to 4096 bytes. -/
@[mk_iff] structure Path.IsValid (p : Path) : Prop where
  nonempty : 1 ≤ p.text.utf8ByteSize
  short : p.text.utf8ByteSize ≤ 4096

/-- A host is not empty and has no white space. -/
@[mk_iff] structure IsHost (host : String) : Prop where
  nonempty : host ≠ ""
  chars : ∀ c ∈ host.toList, Text.isWhitespace c = false

/-- An interval is positive. A list has at least one episode, and episodes of the run
    only; its length may be unknown. -/
def EvalSchedule.IsValid (total : Option UInt32) : EvalSchedule → Prop
  | interval n => 1 ≤ n
  | episodes list => list ≠ [] ∧ ∀ e ∈ list, 1 ≤ e ∧ ∀ n ∈ total, e ≤ n

/-- The `main` section. -/
@[mk_iff] structure MainSection.IsValid (m : MainSection) : Prop where
  numEpisodes : ∀ n ∈ m.numEpisodes, 1 ≤ n
  numSteps : ∀ n ∈ m.numSteps, 1 ≤ n
  evalSchedule : ∀ s ∈ m.evalSchedule, s.IsValid m.numEpisodes

/-- The controller of rollout workers. -/
@[mk_iff] structure Controller.IsValid (c : Controller) : Prop where
  host : IsHost c.host
  port : c.port ≠ 0

/-- The `rollout.parallelism` section. Without parallelism of its own, evaluation has that
    of sampling; more than one of either needs a controller. -/
@[mk_iff] structure Parallelism.IsValid (p : Parallelism) : Prop where
  sampling : 1 ≤ p.sampling
  eval : ∀ n ∈ p.eval, 1 ≤ n
  minEnvSamples : ∀ n ∈ p.minEnvSamples, 1 ≤ n ∧ n ≤ p.sampling
  graceFactor : ∀ x ∈ p.graceFactor, x.isFinite = true ∧ 0 ≤ x.value
  controller : ∀ c ∈ p.controller, c.IsValid
  controlled : 1 < p.sampling ∨ 1 < p.eval.getD p.sampling → p.controller.isSome

/-- The `training.checkpointing` section. -/
@[mk_iff] structure Checkpointing.IsValid (c : Checkpointing) : Prop where
  path : c.path.IsValid
  interval : 1 ≤ c.interval

/-- The `training.proxy` section. -/
@[mk_iff] structure Proxy.IsValid (p : Proxy) : Prop where
  host : IsHost p.host
  frontend : p.frontend ≠ 0
  backend : p.backend ≠ 0
  apart : p.frontend ≠ p.backend

/-- The `training` section of a run whose length may be unknown. -/
@[mk_iff] structure TrainingSection.IsValid (total : Option UInt32) (t : TrainingSection) : Prop where
  loadPath : ∀ p ∈ t.loadPath, p.IsValid
  loadEpisode : ∀ e ∈ t.loadEpisode, t.loadPath.isSome ∧ ∀ n ∈ total, e < n
  checkpointing : ∀ c ∈ t.checkpointing, c.IsValid
  proxy : ∀ p ∈ t.proxy, p.IsValid
  numWorkers : ∀ n ∈ t.numWorkers, 1 ≤ n
  parallel : t.mode = .parallel → t.proxy.isSome ∧ t.numWorkers.isSome

/-- A workflow that can be run. -/
@[mk_iff] structure Workflow.IsValid (w : Workflow) : Prop where
  job : IsJobName w.job
  scenarioPath : w.scenarioPath.IsValid
  logPath : w.logPath.IsValid
  main : w.main.IsValid
  parallelism : ∀ p ∈ w.rollout.parallelism, p.IsValid
  training : w.training.IsValid w.main.numEpisodes

/-! ## Single values -/

/-- The characters of a job name. -/
theorem isJobNameChar_iff {c : Char} :
    isJobNameChar c = true ↔ ('a' ≤ c ∧ c ≤ 'z') ∨ ('A' ≤ c ∧ c ≤ 'Z') ∨
      ('0' ≤ c ∧ c ≤ '9') ∨ c = '_' ∨ c = '-' ∨ c = '.' := by
  simp only [isJobNameChar, Text.isAlphanumeric, Text.isLetter, Text.isDigit, Bool.or_eq_true,
    Bool.and_eq_true, decide_eq_true_eq, beq_iff_eq, or_assoc]

/-- A text has a byte unless it is empty. -/
private theorem ne_empty_iff {text : String} : text ≠ "" ↔ 1 ≤ text.utf8ByteSize := by
  rw [Nat.one_le_iff_ne_zero, Ne, Ne, String.utf8ByteSize_eq_zero_iff]

theorem checkJobName_iff {name : String} : checkJobName name = none ↔ IsJobName name := by
  simp only [checkJobName_eq_none_iff, isJobNameChar_iff, ne_empty_iff, isJobName_iff,
    maxJobNameLength]

theorem checkPath_iff {p : Path} : checkPath p = none ↔ p.IsValid := by
  rw [checkPath, Path.isValid_iff, ← ne_empty_iff]
  split
  · simp [*]
  split <;> simp_all [maxPathLength]

theorem checkHost_iff {host : String} : checkHost host = none ↔ IsHost host := by
  rw [checkHost_eq_none_iff]
  -- a text without white space is trimmed already
  have htrim (h : ∀ c ∈ host.toList, Text.isWhitespace c = false) :
      Text.trim host.toList = host.toList :=
    Text.trim_eq_self (fun c hc => h c (List.mem_of_mem_head? hc))
      (fun c hc => h c (List.mem_of_mem_getLast? hc))
  constructor
  · rintro ⟨hnonempty, hchars⟩
    rw [htrim hchars, Ne, String.toList_eq_nil_iff] at hnonempty
    exact ⟨hnonempty, hchars⟩
  · rintro ⟨hnonempty, hchars⟩
    rw [htrim hchars, Ne, String.toList_eq_nil_iff]
    exact ⟨hnonempty, hchars⟩

theorem checkPositive_iff {n : UInt32} : checkPositive n = none ↔ 1 ≤ n := by
  have hpositive : 1 ≤ n ↔ n ≠ 0 := by
    rw [Ne, ← UInt32.toNat_inj, UInt32.le_iff_toNat_le, UInt32.toNat_zero, UInt32.toNat_one]
    omega
  rw [hpositive, checkPositive]
  split <;> simp_all

theorem checkPort_iff {port : UInt16} : checkPort port = none ↔ port ≠ 0 := by
  rw [checkPort]
  split <;> simp_all

/-- A finite number has a significand unless it is a zero of either sign. -/
theorem Binary64.significand_pos_iff {x : Binary64} : 0 < x.significand ↔ x.isZero = false := by
  refine ⟨fun h => ?_, significand_pos⟩
  rw [significand] at h
  rw [isZero, beq_eq_false_iff_ne]
  intro hzero
  -- a number other than zero has a bit set in its exponent or in its fraction
  split at h
  · rw [fraction] at h
    omega
  · rename_i hbiased
    rw [biasedExponent] at hbiased
    omega

/-- A finite number is below zero when its sign says so and it is no zero. -/
theorem Binary64.isBelowZero_iff {x : Binary64} (h : x.isFinite = true) :
    x.isBelowZero = true ↔ x.value < 0 := by
  have hpow : (0 : ℚ) < 2 ^ x.exponent := by positivity
  have hmagnitude : 0 < (x.significand * 2 ^ x.exponent : ℚ) ↔ x.isZero = false := by
    rw [mul_pos_iff_of_pos_right hpow, Nat.cast_pos, significand_pos_iff]
  have hnonneg : 0 ≤ (x.significand * 2 ^ x.exponent : ℚ) := by positivity
  have hnumber : x.isNaN = false := by
    rw [isFinite, bne_iff_ne] at h
    simp [isNaN, h]
  simp only [isBelowZero, value, hnumber, Bool.not_false, Bool.and_true, Bool.and_eq_true,
    Bool.not_eq_true']
  rw [← hmagnitude]
  -- the magnitude is not negative, so the sign decides
  split
  · rename_i hnegative
    rw [neg_one_mul, neg_lt_zero]
    exact and_iff_right hnegative
  · rename_i hnegative
    rw [one_mul]
    exact iff_of_false (fun hboth => hnegative hboth.1) hnonneg.not_gt

theorem checkGraceFactor_iff {x : Binary64} :
    checkGraceFactor x = none ↔ x.isFinite = true ∧ 0 ≤ x.value := by
  rw [checkGraceFactor]
  cases hfinite : x.isFinite with
  | false => simp
  | true =>
    rw [← not_lt, ← Binary64.isBelowZero_iff hfinite]
    cases x.isBelowZero <;> simp

/-! ## Sections -/

/-- What is asked of a listed episode. -/
theorem episodeProblems_eq_nil_iff {total : Option UInt32} {index : Nat} {e : UInt32} :
    episodeProblems total index e = [] ↔ 1 ≤ e ∧ ∀ n ∈ total, e ≤ n := by
  cases total with
  | none => simp [episodeProblems, checkPositive_iff]
  | some n => simp [episodeProblems, checkPositive_iff]

/-- What is asked of listed episodes does not depend on where they stand. -/
theorem listProblems_eq_nil_iff {total : Option UInt32} {index : Nat} {list : List UInt32} :
    listProblems total index list = [] ↔ ∀ e ∈ list, 1 ≤ e ∧ ∀ n ∈ total, e ≤ n := by
  induction list generalizing index with
  | nil => simp [listProblems]
  | cons e list ih =>
    rw [listProblems, List.append_eq_nil_iff, episodeProblems_eq_nil_iff, ih,
      List.forall_mem_cons]

theorem EvalSchedule.isValid_iff_problems {total : Option UInt32} {s : EvalSchedule} :
    s.IsValid total ↔ s.problems total = [] := by
  cases s with
  | interval n => rw [problems, problemAt_eq_nil_iff, checkPositive_iff, IsValid]
  | episodes list =>
    rw [problems, List.append_eq_nil_iff, problemWhen_eq_nil_iff, listProblems_eq_nil_iff,
      List.isEmpty_eq_false_iff, IsValid]

theorem MainSection.isValid_iff_problems {m : MainSection} : m.IsValid ↔ m.problems = [] := by
  simp only [isValid_iff, problems, List.append_eq_nil_iff, problemAtOption_eq_nil_iff,
    getD_map_eq_nil_iff, checkPositive_iff, ← EvalSchedule.isValid_iff_problems, and_assoc]

theorem Parallelism.isDistributed_iff {p : Parallelism} :
    p.isDistributed = true ↔ 1 < p.sampling ∨ 1 < p.eval.getD p.sampling := by
  rw [isDistributed, evalParallelism, Bool.or_eq_true, decide_eq_true_eq, decide_eq_true_eq]

/-- What is asked of a controller, and when there must be one. -/
theorem Parallelism.controllerProblems_eq_nil_iff_isValid {p : Parallelism} :
    p.controllerProblems = [] ↔ (∀ c ∈ p.controller, c.IsValid) ∧
      (1 < p.sampling ∨ 1 < p.eval.getD p.sampling → p.controller.isSome) := by
  simp only [controllerProblems_eq_nil_iff, ← isDistributed_iff, checkHost_iff, checkPort_iff,
    Controller.isValid_iff]
  cases p.controller <;> simp

theorem Parallelism.isValid_iff_problems {p : Parallelism} : p.IsValid ↔ p.problems = [] := by
  have hmin : p.minEnvSamples.any (p.sampling < ·) = false ↔
      ∀ n ∈ p.minEnvSamples, n ≤ p.sampling := by
    cases p.minEnvSamples <;> simp
  rw [problems_eq_nil_iff, controllerProblems_eq_nil_iff_isValid, hmin]
  simp only [isValid_iff, checkPositive_iff, checkGraceFactor_iff, forall₂_and, and_assoc]

theorem Checkpointing.isValid_iff_problems {c : Checkpointing} :
    c.IsValid ↔ c.problems = [] := by
  simp only [isValid_iff, problems, List.append_eq_nil_iff, problemAt_eq_nil_iff,
    checkPath_iff, checkPositive_iff]

theorem Proxy.isValid_iff_problems {p : Proxy} : p.IsValid ↔ p.problems = [] := by
  rw [isValid_iff, problems_eq_nil_iff, checkHost_iff, checkPort_iff, checkPort_iff]

/-- What is asked of the episode that a run resumes from. -/
theorem TrainingSection.resumeProblems_eq_nil_iff {t : TrainingSection}
    {total : Option UInt32} : t.resumeProblems total = [] ↔
      ∀ e ∈ t.loadEpisode, t.loadPath.isSome ∧ ∀ n ∈ total, e < n := by
  rw [resumeProblems]
  cases t.loadEpisode with
  | none => simp
  | some e => cases total <;> cases t.loadPath <;> simp

/-- What parallel training asks for. -/
theorem TrainingSection.modeProblems_eq_nil_iff {t : TrainingSection} :
    t.modeProblems = [] ↔ (t.mode = .parallel → t.proxy.isSome ∧ t.numWorkers.isSome) := by
  rw [modeProblems]
  cases t.mode with
  | simple => simp
  | parallel => cases t.proxy <;> cases t.numWorkers <;> simp

theorem TrainingSection.isValid_iff_problems {t : TrainingSection} {total : Option UInt32} :
    t.IsValid total ↔ t.problems total = [] := by
  simp only [isValid_iff, problems_eq_nil_iff, resumeProblems_eq_nil_iff,
    modeProblems_eq_nil_iff, checkPath_iff, checkPositive_iff,
    ← Checkpointing.isValid_iff_problems, ← Proxy.isValid_iff_problems]

/-! ## Workflows -/

namespace Workflow

variable {w : Workflow}

theorem main_isValid (h : w.problems = []) : w.main.IsValid :=
  MainSection.isValid_iff_problems.mpr (problems_eq_nil_iff.mp h).2.2.2.1

theorem parallelism_isValid (h : w.problems = []) :
    ∀ p ∈ w.rollout.parallelism, p.IsValid :=
  fun p hp => Parallelism.isValid_iff_problems.mpr ((problems_eq_nil_iff.mp h).2.2.2.2.1 p hp)

theorem training_isValid (h : w.problems = []) : w.training.IsValid w.main.numEpisodes :=
  TrainingSection.isValid_iff_problems.mpr (problems_eq_nil_iff.mp h).2.2.2.2.2

/-- No problem is found in a workflow exactly when it is valid. -/
theorem problems_eq_nil_iff_isValid (w : Workflow) : w.problems = [] ↔ w.IsValid := by
  constructor
  · intro h
    obtain ⟨hjob, hscenario, hlog, -⟩ := problems_eq_nil_iff.mp h
    exact ⟨checkJobName_iff.mp hjob, checkPath_iff.mp hscenario, checkPath_iff.mp hlog,
      main_isValid h, parallelism_isValid h, training_isValid h⟩
  · intro h
    exact problems_eq_nil_iff.mpr ⟨checkJobName_iff.mpr h.job, checkPath_iff.mpr h.scenarioPath,
      checkPath_iff.mpr h.logPath, MainSection.isValid_iff_problems.mp h.main,
      fun p hp => Parallelism.isValid_iff_problems.mp (h.parallelism p hp),
      TrainingSection.isValid_iff_problems.mp h.training⟩

end Workflow

end RunPlan
