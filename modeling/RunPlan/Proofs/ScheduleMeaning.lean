import RunPlan.Proofs.Enumeration
import RunPlan.Proofs.ExportedPlan

/-!
# What a written schedule means

A schedule is looked at in canonical form only. This file says what it means as it is
written: an interval, and a list of one episode, select the multiples of a number; a list of
any other length selects its members, whatever their order and however often they are
there. The episodes of a run are listed from that.

The canonical form has the same meaning, unless it is a list of one episode: a list that
repeats one episode becomes a list that would be an interval if it were written so. Looking at
the canonical form of the canonical form goes on with the multiples of that episode.

## Key results

- `EvalSchedule.isEvalEpisode_iff`: the episodes that a schedule selects
- `EvalSchedule.lists_episodesWithin`: the episodes of a run are the selected ones, in order
- `EvalSchedule.isEvalEpisode_normalized_iff`: where the canonical form has another meaning
-/

namespace RunPlan

/-- An ascending list is left as it is. -/
theorem ascending_eq_self {list : List UInt32} (h : list.Pairwise (· < ·)) :
    ascending list = list :=
  eq_of_mem_iff (ascending_pairwise list) h fun _ => mem_ascending

namespace EvalSchedule

variable {s t : EvalSchedule} {n e count : UInt32} {list : List UInt32}

/-! ## The episodes that are selected -/

/-- Only a list of one episode becomes an interval. -/
theorem normalized_of_length_ne_one (h : list.length ≠ 1) :
    (episodes list).normalized = episodes (ascending list) := by
  match list, h with
  | [], _ => rfl
  | _ :: _ :: _, _ => rfl

/-- An interval selects its multiples. -/
theorem isEvalEpisode_interval :
    (interval n).isEvalEpisode e = true ↔ 1 ≤ e ∧ 1 ≤ n ∧ n.toNat ∣ e.toNat := by
  rw [isEvalEpisode, normalized, selects, isMultiple_iff, UInt32.le_iff_toNat_le,
    UInt32.le_iff_toNat_le, UInt32.toNat_one, Nat.succ_le_iff, Nat.succ_le_iff]

/-- A list of one episode is read as an interval. -/
theorem isEvalEpisode_single : (episodes [n]).isEvalEpisode e = (interval n).isEvalEpisode e :=
  rfl

/-- A list of any other length selects its members. Sorting and removing repeats does not
    change these, and finds them by halving. -/
theorem isEvalEpisode_episodes (h : list.length ≠ 1) :
    (episodes list).isEvalEpisode e = true ↔ 1 ≤ e ∧ e ∈ list := by
  have hpos : 0 < e ↔ 1 ≤ e := by
    rw [UInt32.lt_iff_toNat_lt, UInt32.le_iff_toNat_le, UInt32.toNat_zero, UInt32.toNat_one,
      Nat.succ_le_iff]
  rw [isEvalEpisode, normalized_of_length_ne_one h, selects_episodes (ascending_pairwise list),
    mem_ascending, hpos]

/-- A listed episode is selected, also when the list is read as an interval. -/
theorem isEvalEpisode_of_mem (h : e ∈ list) (he : 1 ≤ e) :
    (episodes list).isEvalEpisode e = true := by
  by_cases hlength : list.length = 1
  · obtain ⟨n, rfl⟩ := List.length_eq_one_iff.mp hlength
    obtain rfl := List.mem_singleton.mp h
    rw [isEvalEpisode_single]
    exact isEvalEpisode_interval.mpr ⟨he, he, Nat.dvd_refl _⟩
  · exact (isEvalEpisode_episodes hlength).mpr ⟨he, h⟩

/-- The episodes that a schedule selects, in terms of how it is written. -/
theorem isEvalEpisode_iff : s.isEvalEpisode e = true ↔ 1 ≤ e ∧
    ((∃ n, (s = interval n ∨ s = episodes [n]) ∧ 1 ≤ n ∧ n.toNat ∣ e.toNat) ∨
      ∃ list, s = episodes list ∧ list.length ≠ 1 ∧ e ∈ list) := by
  cases s with
  | interval n => simp [isEvalEpisode_interval]
  | episodes list =>
    -- the length is looked at before repeats are removed
    by_cases hlength : list.length = 1
    · obtain ⟨n, rfl⟩ := List.length_eq_one_iff.mp hlength
      simp [isEvalEpisode_single, isEvalEpisode_interval]
    · have hsingle (n : UInt32) : list ≠ [n] := fun heq => hlength (heq ▸ rfl)
      simp [isEvalEpisode_episodes hlength, hlength, hsingle]

/-! ## The episodes of a run -/

/-- The plan of a run from the first episode on, with nothing but a schedule. -/
def freshPlan (s : EvalSchedule) (count : UInt32) : EpisodePlan where
  firstEpisode := 1
  lastEpisode := count
  maxSteps := none
  evalSchedule := some s.normalized
  checkpointInterval := none

/-- The evaluations of a fresh run are those of its plan. -/
theorem evalEpisodes_freshPlan (s : EvalSchedule) (count : UInt32) :
    (s.freshPlan count).evalEpisodes = s.episodesWithin count := by
  simp only [EpisodePlan.evalEpisodes, freshPlan, episodesWithin]
  cases s.normalized with
  | interval n => rfl
  | episodes list => rfl

/-- The episodes of a run are the selected ones, in ascending order. -/
theorem lists_episodesWithin (s : EvalSchedule) (count : UInt32) :
    Lists (s.episodesWithin count) 1 count s.isEvalEpisode := by
  -- a plan of canonical form lists what its steps say, in order
  have hcanonical : (s.freshPlan count).IsCanonical := by
    intro t ht
    obtain rfl := Option.some.inj ht
    exact s.normalized_isCanonical
  rw [← evalEpisodes_freshPlan]
  exact EpisodePlan.lists_evalEpisodes hcanonical

/-- The first episodes of a run are a prefix of them. -/
theorem firstEpisodes_eq_take (limit : Nat) (s : EvalSchedule) (count : UInt32) :
    s.firstEpisodes limit count = (s.episodesWithin count).take limit := by
  rw [← evalEpisodes_freshPlan, ← EpisodePlan.firstEvals_eq_take]
  rfl

/-- Two schedules list the same episodes of a run exactly when they select the same ones. -/
theorem episodesWithin_eq_iff :
    s.episodesWithin count = t.episodesWithin count ↔
      ∀ e, 1 ≤ e ∧ e ≤ count → s.isEvalEpisode e = t.isEvalEpisode e := by
  obtain ⟨hs, hmem⟩ := s.lists_episodesWithin count
  obtain ⟨ht, hmem'⟩ := t.lists_episodesWithin count
  constructor
  · -- Equal lists have the same members
    intro heq e he
    have hiff := hmem e
    rw [heq, hmem', and_iff_right he, and_iff_right he] at hiff
    exact (Bool.eq_iff_iff.mpr hiff).symm
  · -- Ascending lists with the same members are equal
    intro hselect
    apply eq_of_mem_iff hs ht
    intro e
    rw [hmem, hmem']
    exact and_congr_right fun he => by rw [hselect e he]

/-- What a written schedule means: the episodes it selects one by one, and their list in a
    run of any length. -/
theorem lists_selected_and_selects_iff (s : EvalSchedule) :
    (∀ count, Lists (s.episodesWithin count) 1 count s.isEvalEpisode ∧
      ∀ limit, s.firstEpisodes limit count = (s.episodesWithin count).take limit) ∧
    ∀ e, s.isEvalEpisode e = true ↔ 1 ≤ e ∧
      ((∃ n, (s = interval n ∨ s = episodes [n]) ∧ 1 ≤ n ∧ n.toNat ∣ e.toNat) ∨
        ∃ list, s = episodes list ∧ list.length ≠ 1 ∧ e ∈ list) := by
  refine ⟨fun count => ⟨s.lists_episodesWithin count, fun limit => ?_⟩, fun e => ?_⟩
  · exact firstEpisodes_eq_take limit s count
  · exact isEvalEpisode_iff

/-! ## The canonical form of the canonical form -/

/-- Whether a schedule lists an episode more than once, and no other one. -/
def Repeats (s : EvalSchedule) (n : UInt32) : Prop :=
  ∃ k, s = episodes (List.replicate (k + 2) n)

/-- These are the schedules whose canonical form is a list of one episode. -/
theorem repeats_iff : s.Repeats n ↔ s.normalized = episodes [n] :=
  normalized_eq_singleton_iff.symm

/-- A schedule in canonical form is its own one, unless it is a list of one episode. -/
theorem normalized_eq_self (h : s.IsCanonical) (hsingle : ∀ n, s ≠ episodes [n]) :
    s.normalized = s := by
  cases s with
  | interval n => rfl
  | episodes list =>
    have hlength : list.length ≠ 1 := by
      intro hone
      obtain ⟨n, rfl⟩ := List.length_eq_one_iff.mp hone
      exact hsingle n rfl
    rw [normalized_of_length_ne_one hlength, ascending_eq_self h]

/-- Taking the canonical form twice gives another form only for a repeated episode. -/
theorem normalized_normalized_of_not_repeats (h : ∀ n, ¬s.Repeats n) :
    s.normalized.normalized = s.normalized :=
  normalized_eq_self s.normalized_isCanonical fun n hn => h n (repeats_iff.mpr hn)

/-- A repeated episode becomes an interval in the second step. -/
theorem Repeats.normalized_normalized (h : s.Repeats n) :
    s.normalized.normalized = interval n := by
  rw [repeats_iff.mp h]
  rfl

/-- Taking the canonical form changes nothing exactly when no episode is repeated alone. -/
theorem normalized_normalized_iff :
    s.normalized.normalized = s.normalized ↔ ∀ n, ¬s.Repeats n := by
  refine ⟨fun heq n hn => ?_, normalized_normalized_of_not_repeats⟩
  rw [hn.normalized_normalized, repeats_iff.mp hn] at heq
  cases heq

/-- A schedule repeats an episode alone, or its canonical form is final. -/
theorem exists_repeats_or_normalized_eq (s : EvalSchedule) :
    (∃ n, s.Repeats n) ∨ s.normalized.normalized = s.normalized := by
  rw [normalized_normalized_iff, ← not_exists]
  exact Classical.em _

/-- There is one episode that is repeated alone. -/
theorem Repeats.forall_iff {P : UInt32 → Prop} (h : s.Repeats n) :
    (∀ m, s.Repeats m → P m) ↔ P n := by
  refine ⟨fun hforall => hforall n h, fun hn m hm => ?_⟩
  have hlist : episodes [n] = episodes [m] := (repeats_iff.mp h).symm.trans (repeats_iff.mp hm)
  rwa [← List.singleton_inj.mp (EvalSchedule.episodes.inj hlist)]

/-- A schedule that repeats an episode selects it alone. -/
theorem Repeats.isEvalEpisode_iff (h : s.Repeats n) :
    s.isEvalEpisode e = true ↔ 1 ≤ e ∧ e = n := by
  obtain ⟨k, rfl⟩ := h
  rw [isEvalEpisode_episodes (by simp), List.mem_replicate]
  exact and_congr_right fun _ => and_iff_right (Nat.succ_ne_zero _)

/-- The canonical form of such a schedule selects the multiples of the episode. -/
theorem Repeats.isEvalEpisode_normalized_iff (h : s.Repeats n) :
    s.normalized.isEvalEpisode e = true ↔ 1 ≤ e ∧ 1 ≤ n ∧ n.toNat ∣ e.toNat := by
  rw [repeats_iff.mp h, isEvalEpisode_single, isEvalEpisode_interval]

/-- The two select the same, but for the further multiples of the episode. -/
theorem Repeats.isEvalEpisode_normalized_eq_iff (h : s.Repeats n) :
    s.normalized.isEvalEpisode e = s.isEvalEpisode e ↔ ¬(n < e ∧ n.toNat ∣ e.toNat) := by
  rw [Bool.eq_iff_iff, h.isEvalEpisode_normalized_iff, h.isEvalEpisode_iff, ← UInt32.toNat_inj,
    UInt32.le_iff_toNat_le, UInt32.le_iff_toNat_le, UInt32.lt_iff_toNat_lt, UInt32.toNat_one]
  constructor
  · rintro hiff ⟨hlt, hdvd⟩
    have hpos : 0 < n.toNat := Nat.pos_of_dvd_of_pos hdvd (by omega)
    have heq := hiff.mp ⟨by omega, hpos, hdvd⟩
    omega
  · intro hnot
    constructor
    · rintro ⟨he, -, hdvd⟩
      -- a multiple is not below the number, so that it can only be the number itself
      have hle := Nat.le_of_dvd he hdvd
      exact ⟨he, Nat.le_antisymm (Nat.not_lt.mp fun hlt => hnot ⟨hlt, hdvd⟩) hle⟩
    · rintro ⟨he, heq⟩
      exact ⟨he, heq ▸ he, heq ▸ Nat.dvd_refl _⟩

/-- The canonical form selects what the schedule selects, except for the further multiples of
    a repeated episode. -/
theorem isEvalEpisode_normalized_iff :
    s.normalized.isEvalEpisode e = s.isEvalEpisode e ↔
      ∀ n, s.Repeats n → ¬(n < e ∧ n.toNat ∣ e.toNat) := by
  rcases s.exists_repeats_or_normalized_eq with ⟨n, hn⟩ | hfinal
  · rw [hn.forall_iff, hn.isEvalEpisode_normalized_eq_iff]
  · rw [isEvalEpisode, hfinal]
    exact iff_of_true rfl fun n hn => absurd hn (normalized_normalized_iff.mp hfinal n)

/-- The second multiple of a number, if it is an episode of the run. -/
theorem exists_multiple_iff :
    (∃ e, (1 ≤ e ∧ e ≤ count) ∧ n < e ∧ n.toNat ∣ e.toNat) ↔
      n ≠ 0 ∧ 2 * n.toNat ≤ count.toNat := by
  simp only [UInt32.le_iff_toNat_le, UInt32.lt_iff_toNat_lt, Ne, ← UInt32.toNat_inj,
    UInt32.toNat_zero, UInt32.toNat_one]
  constructor
  · rintro ⟨e, ⟨hpos, hcount⟩, hlt, j, hj⟩
    -- a multiple other than the first one is at least the second one
    have htwo : 2 ≤ j := by
      rcases j with _ | _ | j
      · omega
      · omega
      · omega
    have hle : n.toNat * 2 ≤ n.toNat * j := Nat.mul_le_mul_left _ htwo
    refine ⟨fun hzero => ?_, by omega⟩
    rw [hzero, Nat.zero_mul] at hj
    omega
  · rintro ⟨hne, hle⟩
    -- the second multiple is an episode number, as the run reaches it
    have hbound := count.toNat_lt
    have hsecond : (UInt32.ofNat (2 * n.toNat)).toNat = 2 * n.toNat :=
      UInt32.toNat_ofNat_of_lt' (by simp only [UInt32.size]; omega)
    refine ⟨UInt32.ofNat (2 * n.toNat), ?_⟩
    rw [hsecond]
    exact ⟨⟨by omega, hle⟩, by omega, Nat.dvd_mul_left _ 2⟩

/-- The canonical form lists the same episodes of a run, unless the run reaches the second
    multiple of a repeated episode. -/
theorem episodesWithin_normalized_iff :
    s.normalized.episodesWithin count = s.episodesWithin count ↔
      ∀ n, s.Repeats n → ¬(n ≠ 0 ∧ 2 * n.toNat ≤ count.toNat) := by
  simp only [episodesWithin_eq_iff, isEvalEpisode_normalized_iff, ← exists_multiple_iff]
  constructor
  · rintro h n hn ⟨e, he, hmultiple⟩
    exact h e he n hn hmultiple
  · intro h e he n hn hmultiple
    exact h n hn ⟨e, he, hmultiple⟩

/-- The canonical form is exported like the schedule: a list of one episode and an interval
    have the same text. -/
theorem envValue_normalized (s : EvalSchedule) : s.normalized.envValue = s.envValue := by
  rw [envValue_eq, envValue_eq]
  rcases s.exists_repeats_or_normalized_eq with ⟨n, hn⟩ | hfinal
  · rw [hn.normalized_normalized, repeats_iff.mp hn]
    rfl
  · rw [hfinal]

/-- The canonical form is taken twice at most. -/
theorem normalized_normalized_normalized (s : EvalSchedule) :
    s.normalized.normalized.normalized = s.normalized.normalized := by
  rcases s.exists_repeats_or_normalized_eq with ⟨n, hn⟩ | hfinal
  · rw [hn.normalized_normalized]
    rfl
  · rw [hfinal, hfinal]

/-- What becomes of a schedule in canonical form when it is taken for a written one: it is
    exported as before, and it has the same form and the same meaning exactly as long as it does
    not come from an episode that is repeated alone. A second step is always the last one. -/
theorem normalized_isFinal_iff (s : EvalSchedule) :
    (s.normalized.normalized = s.normalized ↔ ∀ n, ¬s.Repeats n) ∧
    (∀ e, s.normalized.isEvalEpisode e = s.isEvalEpisode e ↔
      ∀ n, s.Repeats n → ¬(n < e ∧ n.toNat ∣ e.toNat)) ∧
    (∀ count, s.normalized.episodesWithin count = s.episodesWithin count ↔
      ∀ n, s.Repeats n → ¬(n ≠ 0 ∧ 2 * n.toNat ≤ count.toNat)) ∧
    s.normalized.envValue = s.envValue ∧
    s.normalized.normalized.normalized = s.normalized.normalized := by
  refine ⟨normalized_normalized_iff, fun e => isEvalEpisode_normalized_iff, fun count => ?_,
    s.envValue_normalized, s.normalized_normalized_normalized⟩
  exact episodesWithin_normalized_iff

/-- A list that repeats an episode has a canonical form that is not its own, and that selects
    the next multiple of the episode where the list does not. -/
theorem normalized_normalized_ne :
    let s := episodes [5, 5]
    s.normalized.normalized ≠ s.normalized ∧
      s.normalized.isEvalEpisode 10 ≠ s.isEvalEpisode 10 := by
  decide

end EvalSchedule

end RunPlan
