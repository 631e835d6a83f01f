import RunPlan.Proofs.Schedule

/-!
# What the enumerations of a plan list

The enumerations of a plan list the episodes of its range with a property, in ascending order:
the property is the flag that `step` gives to a single episode. The range may be empty, and it
may end at the largest episode number. There is only one such list (`eq_of_mem_iff`), so the
enumerations are given by the flags.

## Key results

- `EpisodePlan.length_steps`: the number of steps
- `Workflow.step_of_episodePlan`: the flags of a plan are those of the written schedules
- `EpisodePlan.enumerations_agree`: enumerations and flags agree
-/

namespace RunPlan

/-- Whether a list has the episodes of a range that meet a condition, in ascending order. -/
structure Lists (list : List UInt32) (first last : UInt32) (holds : UInt32 → Bool) : Prop where
  ascending : list.Pairwise (· < ·)
  mem_iff : ∀ e, e ∈ list ↔ (first ≤ e ∧ e ≤ last) ∧ holds e = true

/-- The flags of a plan are those of the sections that it is made from. -/
theorem Workflow.step_of_episodePlan {w : Workflow} {p : EpisodePlan}
    (h : w.episodePlan = some p) (e : UInt32) :
    (p.step e).evaluate = w.main.evalSchedule.any (·.isEvalEpisode e) ∧
      (p.step e).checkpoint = w.training.checkpointing.any (·.isCheckpointEpisode e) := by
  obtain ⟨last, -, rfl⟩ := Option.map_eq_some_iff.mp h
  exact ⟨Option.any_map .., Option.any_map ..⟩

namespace EpisodePlan

variable {p : EpisodePlan}

/-- The evaluations of a plan. -/
theorem lists_evalEpisodes (h : p.IsCanonical) :
    Lists p.evalEpisodes p.firstEpisode p.lastEpisode fun e => (p.step e).evaluate :=
  ⟨evalEpisodes_pairwise h, fun _ => mem_evalEpisodes h⟩

/-- The checkpoints of a plan. -/
theorem lists_checkpointEpisodes (p : EpisodePlan) :
    Lists p.checkpointEpisodes p.firstEpisode p.lastEpisode fun e => (p.step e).checkpoint :=
  ⟨p.checkpointEpisodes_pairwise, fun _ => mem_checkpointEpisodes⟩

/-- There are as many steps as the plan says, for no range is longer than an enumeration. -/
theorem length_steps (p : EpisodePlan) : p.steps.length = p.len := by
  have hlast := p.lastEpisode.toNat_lt
  rw [steps_eq_map, List.length_map, episodes, length_progression Nat.one_pos, Nat.div_one, len,
    episodeLimit]
  omega

/-- The enumerations of a plan agree with the flags of its episodes, and its length with its
    steps. Where the plan is that of a workflow, the flags are those of the schedules as they
    are written there. -/
theorem enumerations_agree (h : p.IsCanonical) :
    (Lists p.evalEpisodes p.firstEpisode p.lastEpisode fun e => (p.step e).evaluate) ∧
      (Lists p.checkpointEpisodes p.firstEpisode p.lastEpisode fun e => (p.step e).checkpoint) ∧
      p.len = p.steps.length ∧
      ∀ w : Workflow, w.episodePlan = some p → ∀ e,
        (p.step e).checkpoint = w.training.checkpointing.any (·.isCheckpointEpisode e) ∧
          (p.step e).evaluate = w.main.evalSchedule.any (·.isEvalEpisode e) := by
  refine ⟨lists_evalEpisodes h, p.lists_checkpointEpisodes, p.length_steps.symm, ?_⟩
  intro w hw e
  exact (Workflow.step_of_episodePlan hw e).symm

/-- The largest range there is, with episode zero in its schedule and the only checkpoint in
    its middle. -/
theorem enumerations_agree_largest :
    let p : EpisodePlan := {
      firstEpisode := 0, lastEpisode := 4294967295, maxSteps := none
      evalSchedule := some (.episodes [0, 5, 4294967295])
      checkpointInterval := some 2147483648 }
    p.IsCanonical ∧ p.evalEpisodes = [5, 4294967295] ∧
      (∀ e, e ∈ p.checkpointEpisodes ↔ (p.step e).checkpoint = true) ∧
      p.steps.length = 4294967296 := by
  intro p
  have hcanonical : p.IsCanonical := by
    intro s hs
    obtain rfl := Option.some.inj hs
    show [0, 5, 4294967295].Pairwise (· < ·)
    decide
  have hsize : p.len = 4294967296 := by decide
  obtain ⟨-, hcheckpoints, hlen, -⟩ := enumerations_agree hcanonical
  refine ⟨hcanonical, by decide, fun e => ?_, hlen.symm.trans hsize⟩
  have hrange : p.firstEpisode ≤ e ∧ e ≤ p.lastEpisode := by
    have hlimit : p.lastEpisode.toNat = 4294967295 := by decide
    have hlt := e.toNat_lt
    rw [UInt32.le_iff_toNat_le, UInt32.le_iff_toNat_le, hlimit]
    exact ⟨Nat.zero_le _, by omega⟩
  exact (hcheckpoints.mem_iff e).trans (and_iff_right hrange)

end EpisodePlan

end RunPlan
