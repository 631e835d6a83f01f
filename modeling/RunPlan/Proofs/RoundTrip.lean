import RunPlan.Proofs.Decode
import RunPlan.Proofs.Load
import RunPlan.Proofs.Problem

/-!
# Written workflows are read back

A workflow without problems has a document from which strict reading makes the same
workflow: whatever its texts hold, whichever of its fields and sections are there, and in
whichever form its schedule is written.

A grace factor that is no finite number is not considered: it does not pass validation.

## Key results

- `Workflow.ofText_toYaml`: a workflow without problems is read back from its document
-/

namespace RunPlan.Workflow

open Yaml

/-- The required fields of a written workflow are there. -/
theorem checkRequired_toValue (w : Workflow) : checkRequired w.toValue = .ok () := by
  rfl

/-- A grace factor that is no finite number is a problem. -/
theorem isFinite_graceFactor {w : Workflow} (h : w.problems = []) :
    ∀ p ∈ w.rollout.parallelism, ∀ x ∈ p.graceFactor, x.isFinite = true := by
  intro p hp x hx
  obtain ⟨-, -, -, -, hparallelism, -⟩ := Workflow.problems_eq_nil_iff.mp h
  obtain ⟨-, -, -, -, hgrace, -⟩ := Parallelism.problems_eq_nil_iff.mp (hparallelism p hp)
  have hcheck := hgrace x hx
  rw [checkGraceFactor] at hcheck
  split at hcheck
  · cases hcheck
  · simp_all

/-- A workflow without problems is read back from its document. -/
theorem ofText_toYaml {w : Workflow} (h : w.problems = []) : ofText w.toYaml = .ok w := by
  have hsection := Workflow.isSection (isFinite_graceFactor h)
  have hread := readNode_render (List.cons_ne_nil _ _) hsection.isWritten (by decide)
  have hdecode : Workflow.decode (writtenNode w.toValue) = .ok w :=
    hsection.decodes "Workflow" (by simp [requiredFields]) []
  have htoYaml : readNode w.toYaml = .ok (writtenNode w.toValue, w.toValue) := hread
  exact (ofText_eq_ok_iff htoYaml).mpr ⟨checkRequired_toValue w, hdecode, h⟩

/-- A workflow with something of everything: a path that looks like a number, one with
    quotes and a line feed, and a list of episodes. -/
theorem ofText_toYaml_paths :
    let w : Workflow :=
      { job := "007", scenarioPath := ⟨"1e3"⟩, logPath := ⟨" 'a':\n\tb "⟩
        main := { evalSchedule := some (.episodes [4, 2]) } }
    w.problems = [] ∧ ofText w.toYaml = .ok w :=
  ⟨by decide, ofText_toYaml (by decide)⟩

end RunPlan.Workflow
