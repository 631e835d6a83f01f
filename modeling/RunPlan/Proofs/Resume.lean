import RunPlan.Proofs.Schedule

/-!
# Resuming a run

A run that stops after an episode, and the run that resumes it there, do together what a
run without the interruption does. All three look at the same schedules, and an
enumeration of a plan lists the episodes of its range that meet a condition on these. So
it is enough that the two ranges make up the whole one (`EpisodePlan.IsCut.eq_append`).

## Key results

- `EpisodePlan.IsCut.steps_eq_append` and its like: the enumerations of a plan that is cut
- `Workflow.stoppedAt_append_resumedAfter`: a resumed run continues the interrupted one
-/

namespace RunPlan

namespace EpisodePlan

variable {p q : EpisodePlan} {k : UInt32}

/-- Whether two plans decide alike what follows an episode. -/
structure SameSchedules (p q : EpisodePlan) : Prop where
  evalSchedule : q.evalSchedule = p.evalSchedule
  checkpointInterval : q.checkpointInterval = p.checkpointInterval

/-- Plans with the same schedules have the same steps, except that their ranges may
    differ. -/
theorem SameSchedules.step_eq (h : p.SameSchedules q) (e : UInt32) : q.step e = p.step e := by
  rw [step, step, h.evalSchedule, h.checkpointInterval]

/-- Plans with the same schedules are canonical together. -/
theorem SameSchedules.isCanonical (h : p.SameSchedules q) (hp : p.IsCanonical) :
    q.IsCanonical := by
  rw [IsCanonical, h.evalSchedule]
  exact hp

/-- The part of a plan up to an episode. -/
def upTo (p : EpisodePlan) (k : UInt32) : EpisodePlan :=
  { p with lastEpisode := k }

/-- The part of a plan after an episode. -/
def after (p : EpisodePlan) (k : UInt32) : EpisodePlan :=
  { p with firstEpisode := k + 1 }

/-- Whether a plan can be cut after an episode: an episode of the plan other than its last
    one, or the episode before its first one. -/
structure IsCut (p : EpisodePlan) (k : UInt32) : Prop where
  first_le : p.firstEpisode.toNat ≤ k.toNat + 1
  lt_last : k < p.lastEpisode

namespace IsCut

/-- The part after a cut holds what comes later than the cut. -/
theorem after_le_iff (h : p.IsCut k) {e : UInt32} : k + 1 ≤ e ↔ k < e := by
  have hlast := UInt32.lt_iff_toNat_lt.mp h.lt_last
  have hbound := p.lastEpisode.toNat_lt
  -- `k` is not the largest number there is, so the sum does not wrap
  have hnext : (k + 1).toNat = k.toNat + 1 := by
    rw [UInt32.toNat_add, UInt32.toNat_one, Nat.mod_eq_of_lt (by omega)]
  rw [UInt32.le_iff_toNat_le, hnext, UInt32.lt_iff_toNat_lt]
  omega

/-- The episodes up to the cut and those after it are the episodes of the plan. -/
theorem mem_range_iff (h : p.IsCut k) {e : UInt32} :
    p.firstEpisode ≤ e ∧ e ≤ p.lastEpisode ↔
      (p.firstEpisode ≤ e ∧ e ≤ k) ∨ (k + 1 ≤ e ∧ e ≤ p.lastEpisode) := by
  have hfirst := h.first_le
  have hlast := UInt32.lt_iff_toNat_lt.mp h.lt_last
  rw [h.after_le_iff]
  simp only [UInt32.le_iff_toNat_le, UInt32.lt_iff_toNat_lt]
  omega

/-- An enumeration of the episodes that meet a condition is cut where the plan is. -/
theorem eq_append (h : p.IsCut k) (enum : EpisodePlan → List UInt32) (holds : UInt32 → Prop)
    (hsorted : ∀ q, p.SameSchedules q → (enum q).Pairwise (· < ·))
    (hmem : ∀ q, p.SameSchedules q → ∀ e, e ∈ enum q ↔
      (q.firstEpisode ≤ e ∧ e ≤ q.lastEpisode) ∧ holds e) :
    enum p = enum (p.upTo k) ++ enum (p.after k) := by
  have hself : p.SameSchedules p := ⟨rfl, rfl⟩
  have hupTo : p.SameSchedules (p.upTo k) := ⟨rfl, rfl⟩
  have hafter : p.SameSchedules (p.after k) := ⟨rfl, rfl⟩
  apply eq_of_mem_iff (hsorted p hself)
  · -- what is listed up to the cut comes before what is listed after it
    refine List.pairwise_append.mpr ⟨hsorted _ hupTo, hsorted _ hafter, ?_⟩
    intro a ha b hb
    have hle : a ≤ k := ((hmem _ hupTo a).mp ha).1.2
    have hlt : k < b := h.after_le_iff.mp ((hmem _ hafter b).mp hb).1.1
    exact UInt32.lt_of_le_of_lt hle hlt
  · intro e
    rw [List.mem_append, hmem p hself, hmem _ hupTo, hmem _ hafter, h.mem_range_iff,
      or_and_right]
    rfl

/-- The episodes of a plan that is cut. -/
theorem episodes_eq_append (h : p.IsCut k) :
    p.episodes = (p.upTo k).episodes ++ (p.after k).episodes := by
  apply h.eq_append episodes fun _ => True
  · exact fun q _ => q.episodes_pairwise
  · intro q _ e
    rw [mem_episodes, and_true]

/-- The steps of a plan that is cut. -/
theorem steps_eq_append (h : p.IsCut k) :
    p.steps = (p.upTo k).steps ++ (p.after k).steps := by
  rw [steps_eq_map, h.episodes_eq_append, List.map_append]
  rfl

/-- The evaluations of a plan that is cut. -/
theorem evalEpisodes_eq_append (h : p.IsCut k) (hp : p.IsCanonical) :
    p.evalEpisodes = (p.upTo k).evalEpisodes ++ (p.after k).evalEpisodes := by
  apply h.eq_append evalEpisodes fun e => (p.step e).evaluate = true
  · exact fun q hq => evalEpisodes_pairwise (hq.isCanonical hp)
  · intro q hq e
    rw [mem_evalEpisodes (hq.isCanonical hp), hq.step_eq]

/-- The checkpoints of a plan that is cut. -/
theorem checkpointEpisodes_eq_append (h : p.IsCut k) :
    p.checkpointEpisodes = (p.upTo k).checkpointEpisodes ++ (p.after k).checkpointEpisodes := by
  apply h.eq_append checkpointEpisodes fun e => (p.step e).checkpoint = true
  · exact fun q _ => q.checkpointEpisodes_pairwise
  · intro q hq e
    rw [mem_checkpointEpisodes, hq.step_eq]

/-- The events of a plan that is cut. -/
theorem events_eq_append (h : p.IsCut k) (hp : p.IsCanonical) :
    p.events = (p.upTo k).events ++ (p.after k).events := by
  have hupTo : (p.upTo k).IsCanonical := SameSchedules.isCanonical ⟨rfl, rfl⟩ hp
  have hafter : (p.after k).IsCanonical := SameSchedules.isCanonical ⟨rfl, rfl⟩ hp
  rw [events_eq_filter hp, events_eq_filter hupTo, events_eq_filter hafter,
    h.steps_eq_append, List.filter_append]

end IsCut

end EpisodePlan

/-! ## Interrupted and resumed workflows -/

namespace Workflow

variable {w : Workflow} {n k : UInt32}

/-- The workflow of a run that ends after an episode. -/
def stoppedAt (w : Workflow) (k : UInt32) : Workflow :=
  { w with main.numEpisodes := some k }

/-- The workflow of a run that takes up another one after an episode. -/
def resumedAfter (w : Workflow) (path : Path) (k : UInt32) : Workflow :=
  { w with training.loadPath := some path, training.loadEpisode := some k }

/-- A run that resumes nothing starts with the first episode. -/
theorem firstEpisode_fresh (h : w.training.loadEpisode = none) : w.firstEpisode = 1 := by
  rw [firstEpisode]
  split
  · rename_i hepisode
    rw [h] at hepisode
    cases hepisode
  · rfl

/-- A run that is resumed before its last episode starts with the next one. -/
theorem firstEpisode_resumedAfter (w : Workflow) (path : Path) (hk : k < n) :
    (w.resumedAfter path k).firstEpisode = k + 1 := by
  have hlt := UInt32.lt_iff_toNat_lt.mp hk
  have hbound := n.toNat_lt
  have hnext : k.toNat + 1 < episodeLimit := by
    rw [episodeLimit]
    omega
  simp only [firstEpisode, resumedAfter, if_pos hnext]

/-- The interrupted and the resumed run have the parts of the plan before and after the
    cut. -/
theorem exists_cut (path : Path) (hepisode : w.training.loadEpisode = none)
    (hn : w.main.numEpisodes = some n) (hk : k < n) :
    ∃ whole : EpisodePlan, whole.IsCut k ∧ w.episodePlan = some whole ∧
      (w.stoppedAt k).episodePlan = some (whole.upTo k) ∧
      (w.resumedAfter path k).episodePlan = some (whole.after k) := by
  obtain ⟨whole, hwhole⟩ : ∃ whole, w.episodePlan = some whole := by simp [episodePlan, hn]
  obtain ⟨last, hlast, hplan⟩ := Option.map_eq_some_iff.mp hwhole
  obtain rfl : last = n := Option.some.inj (hlast.symm.trans hn)
  have hfirst : whole.firstEpisode = 1 := by rw [← hplan, firstEpisode_fresh hepisode]
  refine ⟨whole, ⟨?_, ?_⟩, hwhole, ?_, ?_⟩
  · rw [hfirst, UInt32.toNat_one]
    exact Nat.le_add_left 1 _
  · rw [← hplan]
    exact hk
  · rw [← hplan]
    rfl
  · have hstart := firstEpisode_resumedAfter w path hk
    rw [← hplan, EpisodePlan.after, ← hstart, episodePlan]
    exact congrArg (Option.map _) hn

/-- A run of `n` episodes does the same as a run that stops after `k` of them, followed by
    one that resumes it from there, whichever path it is loaded from: no step, evaluation,
    checkpoint or event is lost or repeated at the cut. -/
theorem stoppedAt_append_resumedAfter (path : Path) (hepisode : w.training.loadEpisode = none)
    (hn : w.main.numEpisodes = some n) (hk : k < n) :
    ∃ whole before rest, w.episodePlan = some whole ∧
      (w.stoppedAt k).episodePlan = some before ∧
      (w.resumedAfter path k).episodePlan = some rest ∧
      whole.steps = before.steps ++ rest.steps ∧
      whole.evalEpisodes = before.evalEpisodes ++ rest.evalEpisodes ∧
      whole.checkpointEpisodes = before.checkpointEpisodes ++ rest.checkpointEpisodes ∧
      whole.events = before.events ++ rest.events := by
  obtain ⟨whole, hcut, hwhole, hbefore, hrest⟩ := exists_cut path hepisode hn hk
  have hcanonical := episodePlan_isCanonical hwhole
  exact ⟨whole, _, _, hwhole, hbefore, hrest, hcut.steps_eq_append,
    hcut.evalEpisodes_eq_append hcanonical, hcut.checkpointEpisodes_eq_append,
    hcut.events_eq_append hcanonical⟩

/-- `stoppedAt_append_resumedAfter` for the longest run there is, cut at an episode that is
    evaluated and listed twice, with checkpoints that do not divide the first part. -/
theorem stoppedAt_append_resumedAfter_longest :
    let w : Workflow := {
      job := "job", scenarioPath := ⟨"scenario"⟩, logPath := ⟨"log"⟩
      main := { numEpisodes := some 4294967295,
                evalSchedule := some (.episodes [4294967294, 12, 4294967294, 0]) }
      training := { checkpointing := some ⟨⟨"checkpoint"⟩, 4294967293⟩ } }
    w.training.loadEpisode = none ∧ w.main.numEpisodes = some 4294967295 ∧
      (4294967294 : UInt32) < 4294967295 ∧
      ∃ whole before rest, w.episodePlan = some whole ∧
        (w.stoppedAt 4294967294).episodePlan = some before ∧
        (w.resumedAfter ⟨"models"⟩ 4294967294).episodePlan = some rest ∧
        whole.steps = before.steps ++ rest.steps ∧
        whole.evalEpisodes = before.evalEpisodes ++ rest.evalEpisodes ∧
        whole.checkpointEpisodes = before.checkpointEpisodes ++ rest.checkpointEpisodes ∧
        whole.events = before.events ++ rest.events :=
  ⟨rfl, rfl, by decide, stoppedAt_append_resumedAfter ⟨"models"⟩ rfl rfl (by decide)⟩

end Workflow

end RunPlan
