import RunPlan.Proofs.Resume
import RunPlan.Proofs.ScheduleMeaning

/-!
# Valid bounded runs

A workflow without problems that bounds its run has something to run: the episodes after the
one it resumes from, or all of them. Validation is what makes this so. The number of episodes
is positive and larger than that of an episode to resume from, which therefore has a next one;
an episode to resume from comes with a path to load it from; and listed episodes are episodes
of the run, so that those which are still to come are evaluated.

## Key results

- `EpisodePlan.map_toNat_steps`: the steps of a plan are consecutive
- `Workflow.toNat_firstEpisode`: a valid run starts right after the episode it resumes from
- `Workflow.runsAfter_of_problems_eq_nil`: what a valid bounded run does
-/

namespace RunPlan

namespace EpisodePlan

/-- The steps of a plan are those of consecutive episodes, from the first one on. -/
theorem map_toNat_steps (p : EpisodePlan) :
    p.steps.map (fun s => s.episode.toNat) = List.range' p.firstEpisode.toNat p.len := by
  have hepisodes : p.steps.map (fun s => s.episode.toNat) = p.episodes.map UInt32.toNat := by
    rw [steps_eq_map, List.map_map]
    rfl
  have hlength : p.episodes.length = p.len := by
    rw [← length_steps, steps_eq_map, List.length_map]
  rw [hepisodes, ← hlength]
  exact map_toNat_progression p.lastEpisode.toNat_lt _ _

/-- Whether a plan runs the episodes after one up to another one, each once and in order. -/
structure RunsAfter (p : EpisodePlan) (k n : UInt32) : Prop where
  lt : k < n
  nonempty : p.isEmpty = false
  len_eq : p.len = n.toNat - k.toNat
  /-- There is a next episode number, so that none is run a second time. -/
  first_eq : p.firstEpisode.toNat = k.toNat + 1
  last_eq : p.lastEpisode = n
  steps_eq : p.steps.map (fun s => s.episode.toNat) =
    List.range' (k.toNat + 1) (n.toNat - k.toNat)

/-- It is enough that the range of the plan starts with the next episode. -/
theorem RunsAfter.of_range {p : EpisodePlan} {k n : UInt32} (hlt : k < n)
    (hfirst : p.firstEpisode.toNat = k.toNat + 1) (hlast : p.lastEpisode = n) :
    p.RunsAfter k n := by
  have hlt' : k.toNat < n.toNat := UInt32.lt_iff_toNat_lt.mp hlt
  have hlen : p.len = n.toNat - k.toNat := by
    rw [len, hfirst, hlast]
    omega
  have hnonempty : p.isEmpty = false := by
    rw [isEmpty, hlen, beq_eq_false_iff_ne]
    omega
  have hsteps := p.map_toNat_steps
  rw [hfirst, hlen] at hsteps
  exact ⟨hlt, hnonempty, hlen, hfirst, hlast, hsteps⟩

end EpisodePlan

namespace Workflow

variable {w : Workflow} {n e : UInt32} {list : List UInt32}

/-- The last episode that a run does not have to do: the one it resumes from, or zero. -/
def lastDone (w : Workflow) : UInt32 :=
  w.training.loadEpisode.getD 0

/-- There is an episode left to run. -/
theorem lastDone_lt (h : w.problems = []) (hn : w.main.numEpisodes = some n) :
    w.lastDone < n := by
  rw [lastDone]
  cases hload : w.training.loadEpisode with
  | none =>
    have hpos : 1 ≤ n := (main_isValid h).numEpisodes n hn
    exact UInt32.lt_of_lt_of_le (by decide) hpos
  | some k => exact ((training_isValid h).loadEpisode k hload).2 n hn

/-- A valid run starts with the episode after the last one that is done. -/
theorem toNat_firstEpisode (h : w.problems = []) (hn : w.main.numEpisodes = some n) :
    w.firstEpisode.toNat = w.lastDone.toNat + 1 := by
  have hlt := UInt32.lt_iff_toNat_lt.mp (lastDone_lt h hn)
  have hbound := n.toNat_lt
  cases hload : w.training.loadEpisode with
  | none =>
    rw [firstEpisode_fresh hload, lastDone, hload]
    rfl
  | some k =>
    -- validation asks for a path to load the episode from
    obtain ⟨path, hpath⟩ := Option.isSome_iff_exists.mp
      ((training_isValid h).loadEpisode k hload).1
    rw [lastDone, hload, Option.getD_some] at hlt ⊢
    -- the number of episodes is above the next one, so that it is not cut off at the limit
    have hnext : k.toNat + 1 < episodeLimit := by
      rw [episodeLimit]
      omega
    simp only [firstEpisode, hpath, hload, if_pos hnext]
    rw [UInt32.toNat_add, UInt32.toNat_one]
    exact Nat.mod_eq_of_lt hnext

/-- A listed episode of a valid run is evaluated, unless it is done already. -/
theorem mem_evalEpisodes_of_listed {p : EpisodePlan} (h : w.problems = [])
    (hp : w.episodePlan = some p) (hschedule : w.main.evalSchedule = some (.episodes list))
    (he : e ∈ list) (hdone : w.lastDone < e) : e ∈ p.evalEpisodes := by
  obtain ⟨n, hn, hplan⟩ := Option.map_eq_some_iff.mp hp
  obtain ⟨hpos, htotal⟩ := ((main_isValid h).evalSchedule _ hschedule).2 e he
  have hfirst := toNat_firstEpisode h hn
  -- it is an episode of the plan, and one that the schedule selects
  rw [EpisodePlan.mem_evalEpisodes (episodePlan_isCanonical hp), (step_of_episodePlan hp e).1,
    hschedule]
  refine ⟨?_, EvalSchedule.isEvalEpisode_of_mem he hpos⟩
  rw [← hplan]
  refine ⟨?_, htotal n hn⟩
  rw [UInt32.le_iff_toNat_le, hfirst]
  exact UInt32.lt_iff_toNat_lt.mp hdone

/-- A workflow without problems that bounds its run has a plan. It runs the episodes that are
    not done yet, each once and in order, and evaluates after those of them that are listed. -/
theorem runsAfter_of_problems_eq_nil (h : w.problems = []) (hn : w.main.numEpisodes = some n) :
    ∃ p, w.episodePlan = some p ∧ p.RunsAfter (w.training.loadEpisode.getD 0) n ∧
      ∀ list, w.main.evalSchedule = some (.episodes list) →
        ∀ e ∈ list, w.training.loadEpisode.getD 0 < e → e ∈ p.evalEpisodes := by
  obtain ⟨p, hp⟩ : ∃ p, w.episodePlan = some p := by simp [episodePlan, hn]
  obtain ⟨last, hlast, hplan⟩ := Option.map_eq_some_iff.mp hp
  obtain rfl : last = n := Option.some.inj (hlast.symm.trans hn)
  refine ⟨p, hp, EpisodePlan.RunsAfter.of_range (lastDone_lt h hn) ?_ ?_, ?_⟩
  · rw [← hplan]
    exact toNat_firstEpisode h hn
  · rw [← hplan]
  · intro list hschedule e he hdone
    exact mem_evalEpisodes_of_listed h hp hschedule he hdone

/-- The last episode there is, left over by a run that evaluates after it and after episodes
    that are done, one of them listed twice. -/
theorem runsAfter_of_problems_eq_nil_last :
    let w : Workflow := {
      job := "job", scenarioPath := ⟨"scenario"⟩, logPath := ⟨"log"⟩
      main := { numEpisodes := some 4294967295,
                evalSchedule := some (.episodes [4294967295, 3, 7, 3]) }
      training := { loadPath := some ⟨"models"⟩, loadEpisode := some 4294967294 } }
    w.problems = [] ∧ w.main.numEpisodes = some 4294967295 ∧
      ∃ p, w.episodePlan = some p ∧ p.RunsAfter 4294967294 4294967295 ∧
        4294967295 ∈ p.evalEpisodes := by
  intro w
  have hw : w.problems = [] := by decide
  obtain ⟨p, hp, hruns, heval⟩ := runsAfter_of_problems_eq_nil hw rfl
  refine ⟨hw, rfl, p, hp, hruns, ?_⟩
  exact heval _ rfl 4294967295 List.mem_cons_self (by decide)

end Workflow

end RunPlan
