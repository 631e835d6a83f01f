import RunPlan.Proofs.Export
import RunPlan.Proofs.Validity

/-!
# How a schedule is written

A schedule can be written as an interval or as a list. Plans and environments look at the
canonical form only, so they cannot tell two ways of writing it apart. The checks look at
what is written: an interval may be longer than the run, a listed episode may not be
beyond its end.

## Key results

- `Workflow.episodePlan_withSchedule_congr`, `Workflow.componentEnv_withSchedule_congr`:
  schedules with one canonical form have the same plan and the same environments
- `Workflow.problems_withSchedule_single_iff`: what is asked of a list of one episode on top
  of what is asked of the interval
-/

namespace RunPlan

/-- A list of one is asked what the interval is asked, and that its episode is in the run. -/
theorem EvalSchedule.isValid_single_iff {total : Option UInt32} {n : UInt32} :
    (episodes [n]).IsValid total ↔ (interval n).IsValid total ∧ ∀ last ∈ total, n ≤ last := by
  show [n] ≠ [] ∧ (∀ e ∈ [n], 1 ≤ e ∧ ∀ last ∈ total, e ≤ last) ↔
    1 ≤ n ∧ ∀ last ∈ total, n ≤ last
  rw [List.forall_mem_singleton]
  exact and_iff_right (List.cons_ne_nil n [])

namespace Workflow

/-- The workflow with another schedule of evaluations. -/
def withSchedule (w : Workflow) (s : EvalSchedule) : Workflow :=
  { w with main := { w.main with evalSchedule := some s } }

/-- A plan has the schedule in canonical form. -/
theorem episodePlan_withSchedule_congr (w : Workflow) {s t : EvalSchedule}
    (h : s.normalized = t.normalized) :
    (w.withSchedule s).episodePlan = (w.withSchedule t).episodePlan := by
  unfold episodePlan withSchedule
  simp only [Option.map_some, h]
  rfl

/-- Environments have the schedule in canonical form. -/
theorem componentEnv_withSchedule_congr (w : Workflow) {s t : EvalSchedule}
    (h : s.normalized = t.normalized) (c : Component) :
    (w.withSchedule s).componentEnv c = (w.withSchedule t).componentEnv c := by
  have hvalue : s.envValue = t.envValue := by
    unfold EvalSchedule.envValue
    rw [h]
  rw [componentEnv_eq, componentEnv_eq]
  -- only the main component is told the schedule
  cases c with
  | main =>
    simp only [allVariables, ownVariables, mainVariables, withSchedule, Option.map_some, hvalue]
    rfl
  | rolloutWorker i => rfl
  | trainProxy => rfl
  | trainWorker i => rfl

/-- A workflow is valid with a schedule when it is without, and the schedule fits its run. -/
theorem isValid_withSchedule_iff (w : Workflow) (s : EvalSchedule) :
    (w.withSchedule s).IsValid ↔
      { w with main := { w.main with evalSchedule := none } : Workflow }.IsValid ∧
        s.IsValid w.main.numEpisodes := by
  simp only [isValid_iff, MainSection.isValid_iff, withSchedule, Option.mem_def,
    Option.some.injEq, forall_eq', reduceCtorEq, false_implies, implies_true, and_true]
  tauto

/-- The schedule of a single episode as a list and as an interval: plan and environments
    are the same, and so are the checks when the episode is in the run. -/
theorem problems_withSchedule_single_iff (w : Workflow) (n : UInt32) :
    let list := w.withSchedule (.episodes [n])
    let interval := w.withSchedule (.interval n)
    (list.problems = [] ↔
        interval.problems = [] ∧ ∀ last ∈ w.main.numEpisodes, n ≤ last) ∧
      list.episodePlan = interval.episodePlan ∧
      ∀ c, list.componentEnv c = interval.componentEnv c := by
  intro list interval
  have hform : (EvalSchedule.episodes [n]).normalized = (EvalSchedule.interval n).normalized := rfl
  refine ⟨?_, episodePlan_withSchedule_congr w hform, componentEnv_withSchedule_congr w hform⟩
  rw [problems_eq_nil_iff_isValid, problems_eq_nil_iff_isValid]
  show (w.withSchedule (.episodes [n])).IsValid ↔ (w.withSchedule (.interval n)).IsValid ∧ _
  rw [isValid_withSchedule_iff, isValid_withSchedule_iff, EvalSchedule.isValid_single_iff,
    and_assoc]

/-- An interval that is longer than the run is accepted, the list of its episode is not. -/
theorem problems_withSchedule_single_ne :
    let w : Workflow := {
      job := "job", scenarioPath := ⟨"a"⟩, logPath := ⟨"l"⟩, main := { numEpisodes := some 3 } }
    (w.withSchedule (.interval 5)).problems = [] ∧
      (w.withSchedule (.episodes [5])).problems ≠ [] := by
  decide

end Workflow

end RunPlan
