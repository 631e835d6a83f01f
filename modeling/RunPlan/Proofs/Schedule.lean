import RunPlan.Schedule
import Mathlib.Data.List.Nodup
import Mathlib.Tactic.Ring

/-!
# Schedules enumerate what they select

A plan says two things about its episodes: `EpisodePlan.step` flags a single one, and
`evalEpisodes`, `checkpointEpisodes` and `events` enumerate the flagged ones without
looking at the others. This file proves that they agree.

All enumerations are strictly ascending, and a strictly ascending list is determined by
its members (`eq_of_mem_iff`). So each enumeration gets two lemmas, one for its order and
one for its members, and equality of enumerations follows from these.

## Key results

- `mem_multiples`, `multiples_pairwise`: the multiples of an interval within a range
- `searchEpisode_iff`: binary search in an ascending list is membership
- `EvalSchedule.normalized_isCanonical`: a normalized schedule is canonical
- `EpisodePlan.events_eq_filter`: the merge of evaluations and checkpoints is the list of
  steps at which something happens
- `EpisodePlan.firstEvents_eq_take`: a bounded enumeration is a prefix of the full one
-/

namespace RunPlan

/-! ## Ascending lists of episodes -/

/-- A strictly ascending list is determined by its members. -/
theorem eq_of_mem_iff {xs ys : List UInt32} (hx : xs.Pairwise (· < ·))
    (hy : ys.Pairwise (· < ·)) (h : ∀ e, e ∈ xs ↔ e ∈ ys) : xs = ys := by
  have nodup {zs : List UInt32} (hz : zs.Pairwise (· < ·)) : zs.Nodup := by
    refine hz.imp ?_
    rintro a b hab rfl
    exact UInt32.lt_irrefl a hab
  have hperm : xs.Perm ys := (List.perm_ext_iff_of_nodup (nodup hx) (nodup hy)).mpr h
  exact hperm.eq_of_pairwise (fun _ _ _ _ hab hba => absurd hba (UInt32.lt_asymm hab)) hx hy

/-- Inserting an episode adds it to the members. -/
theorem mem_insertEpisode {x e : UInt32} {list : List UInt32} :
    e ∈ insertEpisode x list ↔ e = x ∨ e ∈ list := by
  induction list with
  | nil => simp [insertEpisode]
  | cons y ys ih =>
    simp only [insertEpisode]
    split
    · simp only [List.mem_cons]
    · split
      · rename_i heq
        simp only [heq, List.mem_cons, or_self_left]
      · simp only [List.mem_cons, ih]
        exact or_left_comm

/-- Inserting an episode keeps a list ascending. -/
theorem insertEpisode_pairwise {x : UInt32} {list : List UInt32}
    (h : list.Pairwise (· < ·)) : (insertEpisode x list).Pairwise (· < ·) := by
  induction list with
  | nil => simp [insertEpisode]
  | cons y ys ih =>
    obtain ⟨hy, hys⟩ := List.pairwise_cons.mp h
    simp only [insertEpisode]
    split
    · rename_i hlt
      refine List.pairwise_cons.mpr ⟨fun z hz => ?_, h⟩
      rcases List.mem_cons.mp hz with rfl | hz
      · exact hlt
      · exact UInt32.lt_trans hlt (hy z hz)
    · split
      · exact h
      · rename_i hlt hne
        refine List.pairwise_cons.mpr ⟨fun z hz => ?_, ih hys⟩
        rcases mem_insertEpisode.mp hz with rfl | hz
        · exact UInt32.lt_of_le_of_ne (UInt32.not_lt.mp hlt) (Ne.symm hne)
        · exact hy z hz

/-- `ascending` keeps the members. -/
theorem mem_ascending {e : UInt32} {list : List UInt32} : e ∈ ascending list ↔ e ∈ list := by
  induction list with
  | nil => simp [ascending]
  | cons x xs ih =>
    simp only [ascending, List.foldr_cons, mem_insertEpisode, List.mem_cons]
    rw [← ih, ascending]

/-- `ascending` sorts and removes repeats. -/
theorem ascending_pairwise (list : List UInt32) : (ascending list).Pairwise (· < ·) := by
  induction list with
  | nil => simp [ascending]
  | cons x xs ih => exact insertEpisode_pairwise ih

/-- Binary search in an ascending list is membership, given as many halvings as the list
    has members. -/
theorem searchEpisode_iff {x : UInt32} {fuel : Nat} {list : List UInt32}
    (h : list.Pairwise (· < ·)) (hfuel : list.length ≤ fuel) :
    searchEpisode x fuel list = true ↔ x ∈ list := by
  induction fuel generalizing list with
  | zero =>
    have hnil : list = [] := List.length_eq_zero_iff.mp (by omega)
    simp [searchEpisode, hnil]
  | succ fuel ih =>
    simp only [searchEpisode]
    have hsplit : list = list.take (list.length / 2) ++ list.drop (list.length / 2) :=
      (List.take_append_drop _ _).symm
    cases hdrop : list.drop (list.length / 2) with
    | nil =>
      have hlen := congrArg List.length hdrop
      simp only [List.length_drop, List.length_nil] at hlen
      have hnil : list = [] := List.length_eq_zero_iff.mp (by omega)
      simp [hnil]
    | cons y above =>
      -- the middle element separates the two halves
      rw [hdrop] at hsplit
      have hlen := congrArg List.length hsplit
      simp only [List.length_append, List.length_take, List.length_cons] at hlen
      have hsorted := h
      rw [hsplit, List.pairwise_append, List.pairwise_cons] at hsorted
      obtain ⟨hbelow, ⟨habove, habovePairwise⟩, hcross⟩ := hsorted
      have hmem : x ∈ list ↔ x ∈ list.take (list.length / 2) ∨ x = y ∨ x ∈ above := by
        conv_lhs => rw [hsplit]
        simp only [List.mem_append, List.mem_cons]
      rw [hmem]
      dsimp only
      by_cases heq : x = y
      · simp [heq]
      · by_cases hlt : x < y
        · have hnot : x ∉ above := fun hx => UInt32.lt_asymm hlt (habove x hx)
          rw [if_neg heq, if_pos hlt, ih hbelow (by simp only [List.length_take]; omega)]
          simp [heq, hnot]
        · have hnot : x ∉ list.take (list.length / 2) :=
            fun hx => hlt (hcross x hx y List.mem_cons_self)
          rw [if_neg heq, if_neg hlt, ih habovePairwise (by omega)]
          simp [heq, hnot]

/-! ## Arithmetic progressions

A progression is given a limit that no range of episodes exceeds, so that only the last
episode ends it. -/

/-- The members of a progression whose limit is large enough. -/
theorem mem_progression {n last limit current : Nat} {e : UInt32} (hn : 0 < n)
    (hlast : last < 2 ^ 32) (hlimit : last < current + limit) :
    e ∈ progression n last limit current ↔
      (∃ i, e.toNat = current + i * n) ∧ e.toNat ≤ last := by
  -- the limit is not reached before the last episode, as each step is at least one
  induction limit generalizing current with
  | zero =>
    simp only [progression, List.not_mem_nil, false_iff, not_and, Nat.not_le, forall_exists_index]
    intro i hi
    omega
  | succ limit ih =>
    simp only [progression]
    split
    · rename_i hle
      rw [List.mem_cons, ih (by omega)]
      constructor
      · rintro (rfl | ⟨⟨i, hi⟩, he⟩)
        · have hcurrent : (UInt32.ofNat current).toNat = current :=
            UInt32.toNat_ofNat_of_lt' (by simp only [UInt32.size]; omega)
          exact ⟨⟨0, by omega⟩, by omega⟩
        · exact ⟨⟨i + 1, by rw [hi, Nat.succ_mul]; omega⟩, he⟩
      · rintro ⟨⟨i, hi⟩, he⟩
        cases i with
        | zero =>
          left
          rw [← UInt32.toNat_inj, UInt32.toNat_ofNat_of_lt' (by simp only [UInt32.size]; omega)]
          omega
        | succ i => exact .inr ⟨⟨i, by rw [hi, Nat.succ_mul]; omega⟩, he⟩
    · rename_i hle
      simp only [List.not_mem_nil, false_iff, not_and, Nat.not_le, forall_exists_index]
      intro i hi
      omega

/-- The members of a progression are not below its start. -/
theorem le_of_mem_progression {n last limit current : Nat} {e : UInt32}
    (hlast : last < 2 ^ 32) (h : e ∈ progression n last limit current) :
    current ≤ e.toNat := by
  induction limit generalizing current with
  | zero => simp [progression] at h
  | succ limit ih =>
    simp only [progression] at h
    split at h
    · rcases List.mem_cons.mp h with rfl | h
      · rw [UInt32.toNat_ofNat_of_lt' (by simp only [UInt32.size]; omega)]
      · exact Nat.le_trans (Nat.le_add_right _ _) (ih h)
    · simp at h

/-- A progression is strictly ascending. -/
theorem progression_pairwise {n last : Nat} (hn : 0 < n) (hlast : last < 2 ^ 32)
    (limit current : Nat) : (progression n last limit current).Pairwise (· < ·) := by
  induction limit generalizing current with
  | zero => simp [progression]
  | succ limit ih =>
    simp only [progression]
    split
    · refine List.pairwise_cons.mpr ⟨fun e he => ?_, ih _⟩
      have := le_of_mem_progression hlast he
      rw [UInt32.lt_iff_toNat_lt,
        UInt32.toNat_ofNat_of_lt' (by simp only [UInt32.size]; omega)]
      omega
    · simp

/-- A smaller limit cuts a progression short. -/
theorem progression_eq_take {n last limit enough current : Nat} (hn : 0 < n)
    (henough : last < current + enough) :
    progression n last limit current = (progression n last enough current).take limit := by
  induction limit generalizing current enough with
  | zero => simp [progression]
  | succ limit ih =>
    cases enough with
    | zero =>
      have hgt : ¬ current ≤ last := by omega
      simp [progression, hgt]
    | succ enough =>
      simp only [progression]
      split
      · have hrest : last < current + n + enough := by omega
        rw [List.take_succ_cons, ih hrest]
      · simp

/-- The number of members of a progression. -/
theorem length_progression {n : Nat} (hn : 0 < n) (last limit current : Nat) :
    (progression n last limit current).length = min limit ((last + n - current) / n) := by
  induction limit generalizing current with
  | zero => rw [progression, List.length_nil, Nat.zero_min]
  | succ limit ih =>
    rw [progression]
    split
    · rename_i hle
      -- what follows the first member is a progression up to the same last episode
      have hrest : (last + n - current) / n = (last + n - (current + n)) / n + 1 := by
        rw [← Nat.add_div_right _ hn]
        congr 1
        omega
      rw [List.length_cons, ih, hrest]
      omega
    · rename_i hgt
      have hnone : (last + n - current) / n = 0 := Nat.div_eq_of_lt (by omega)
      rw [List.length_nil, hnone, Nat.min_zero]

/-- A progression runs through consecutive terms, for no term is too large for an episode. -/
theorem map_toNat_progression {n last : Nat} (hlast : last < 2 ^ 32) (limit current : Nat) :
    (progression n last limit current).map UInt32.toNat =
      List.range' current (progression n last limit current).length n := by
  induction limit generalizing current with
  | zero => rw [progression, List.map_nil, List.length_nil, List.range'_zero]
  | succ limit ih =>
    rw [progression]
    split
    · have hcurrent : (UInt32.ofNat current).toNat = current :=
        UInt32.toNat_ofNat_of_lt' (by simp only [UInt32.size]; omega)
      rw [List.map_cons, List.length_cons, List.range'_succ, ih, hcurrent]
    · rw [List.map_nil, List.length_nil, List.range'_zero]

/-! ## Multiples of an interval -/

/-- A positive interval, on natural numbers. -/
theorem toNat_pos {n : UInt32} (h : ¬n = 0) : 0 < n.toNat := by
  rw [Nat.pos_iff_ne_zero, ← UInt32.toNat_zero]
  exact fun heq => h (UInt32.toNat_inj.mp heq)

/-- A lower bound of at least one, on natural numbers. -/
theorem toNat_max_one (a : UInt32) : (max a 1).toNat = max a.toNat 1 := by
  simp only [Max.max, UInt32.le_iff_toNat_le, UInt32.toNat_one]
  split <;> rfl

/-- No episode is past the limit of an enumeration. -/
theorem lt_add_episodeLimit (last : UInt32) (current : Nat) :
    last.toNat < current + episodeLimit :=
  Nat.lt_of_lt_of_le last.toNat_lt (Nat.le_add_left _ _)

/-- `isMultiple` on natural numbers. -/
theorem isMultiple_iff {n e : UInt32} :
    isMultiple n e = true ↔ 0 < e.toNat ∧ 0 < n.toNat ∧ n.toNat ∣ e.toNat := by
  simp only [isMultiple, Bool.and_eq_true, decide_eq_true_eq, beq_iff_eq, and_assoc,
    UInt32.lt_iff_toNat_lt, UInt32.toNat_zero, ← UInt32.toNat_inj, UInt32.toNat_mod,
    Nat.dvd_iff_mod_eq_zero]

/-- The numbers that a progression from `firstMultiple` runs through. -/
theorem exists_eq_firstMultiple_add {n first m : Nat} (hn : 0 < n) :
    (∃ i, m = firstMultiple n first + i * n) ↔ n ∣ m ∧ max first 1 ≤ m := by
  have hbelow := Nat.div_mul_le_self (max first 1 + (n - 1)) n
  have habove := Nat.lt_mul_div_succ (max first 1 + (n - 1)) hn
  rw [Nat.mul_comm, Nat.succ_mul] at habove
  simp only [firstMultiple]
  constructor
  · rintro ⟨i, rfl⟩
    refine ⟨⟨(max first 1 + (n - 1)) / n + i, by ring⟩, ?_⟩
    have := Nat.zero_le (i * n)
    omega
  · rintro ⟨⟨j, rfl⟩, hle⟩
    have hj : (max first 1 + (n - 1)) / n ≤ j := by
      apply Nat.le_of_lt_succ
      rw [Nat.div_lt_iff_lt_mul hn, Nat.succ_mul, Nat.mul_comm j n]
      omega
    obtain ⟨i, rfl⟩ := Nat.exists_eq_add_of_le hj
    exact ⟨i, by ring⟩

/-- The members of `multiples`. -/
theorem mem_multiples {n first last e : UInt32} :
    e ∈ multiples n first last ↔
      (first ≤ e ∧ e ≤ last) ∧ isMultiple n e = true := by
  simp only [multiples, firstMultiples, isMultiple_iff]
  split
  · rename_i hzero
    simp [hzero]
  · rename_i hzero
    have hn : 0 < n.toNat := toNat_pos hzero
    rw [mem_progression hn last.toNat_lt (lt_add_episodeLimit last _),
      exists_eq_firstMultiple_add hn, UInt32.le_iff_toNat_le, UInt32.le_iff_toNat_le]
    constructor
    · rintro ⟨⟨hdvd, hle⟩, hlast⟩
      exact ⟨⟨by omega, hlast⟩, by omega, hn, hdvd⟩
    · rintro ⟨⟨hfirst, hlast⟩, hpos, -, hdvd⟩
      exact ⟨⟨hdvd, by omega⟩, hlast⟩

/-- `multiples` is strictly ascending. -/
theorem multiples_pairwise (n first last : UInt32) :
    (multiples n first last).Pairwise (· < ·) := by
  simp only [multiples, firstMultiples]
  split
  · simp
  · rename_i hzero
    exact progression_pairwise (toNat_pos hzero) last.toNat_lt _ _

/-- `firstMultiples` is a prefix of `multiples`. -/
theorem firstMultiples_eq_take (limit : Nat) (n first last : UInt32) :
    firstMultiples limit n first last = (multiples n first last).take limit := by
  simp only [multiples, firstMultiples]
  split
  · simp
  · rename_i hzero
    exact progression_eq_take (toNat_pos hzero) (lt_add_episodeLimit last _)

/-! ## Merging -/

/-- The members of a merge. -/
theorem mem_mergeEpisodes {e : UInt32} (xs ys : List UInt32) :
    e ∈ mergeEpisodes xs ys ↔ e ∈ xs ∨ e ∈ ys := by
  fun_induction mergeEpisodes xs ys with
  | case1 ys => simp
  | case2 xs hne => simp
  | case3 x xs y ys hlt ih => simp only [List.mem_cons, ih, or_assoc]
  | case4 x xs y ys hlt hgt ih =>
    simp only [List.mem_cons, ih]
    tauto
  | case5 x xs y ys hlt hgt ih =>
    have heq : x = y := UInt32.le_antisymm (UInt32.not_lt.mp hgt) (UInt32.not_lt.mp hlt)
    simp only [List.mem_cons, ih, heq]
    tauto

/-- Merging ascending lists gives an ascending list: an episode of both is taken once. -/
theorem mergeEpisodes_pairwise (xs ys : List UInt32) (hx : xs.Pairwise (· < ·))
    (hy : ys.Pairwise (· < ·)) : (mergeEpisodes xs ys).Pairwise (· < ·) := by
  -- the smaller head comes first and is below whatever is merged after it
  fun_induction mergeEpisodes xs ys with
  | case1 ys => exact hy
  | case2 xs hne => exact hx
  | case3 x xs y ys hlt ih =>
    obtain ⟨hxs, hxsPairwise⟩ := List.pairwise_cons.mp hx
    obtain ⟨hys, -⟩ := List.pairwise_cons.mp hy
    refine List.pairwise_cons.mpr ⟨fun e he => ?_, ih hxsPairwise hy⟩
    rcases (mem_mergeEpisodes _ _).mp he with he | he
    · exact hxs e he
    · rcases List.mem_cons.mp he with rfl | he
      · exact hlt
      · exact UInt32.lt_trans hlt (hys e he)
  | case4 x xs y ys hlt hgt ih =>
    obtain ⟨hxs, -⟩ := List.pairwise_cons.mp hx
    obtain ⟨hys, hysPairwise⟩ := List.pairwise_cons.mp hy
    refine List.pairwise_cons.mpr ⟨fun e he => ?_, ih hx hysPairwise⟩
    rcases (mem_mergeEpisodes _ _).mp he with he | he
    · rcases List.mem_cons.mp he with rfl | he
      · exact hgt
      · exact UInt32.lt_trans hgt (hxs e he)
    · exact hys e he
  | case5 x xs y ys hlt hgt ih =>
    have heq : x = y := UInt32.le_antisymm (UInt32.not_lt.mp hgt) (UInt32.not_lt.mp hlt)
    obtain ⟨hxs, hxsPairwise⟩ := List.pairwise_cons.mp hx
    obtain ⟨hys, hysPairwise⟩ := List.pairwise_cons.mp hy
    refine List.pairwise_cons.mpr ⟨fun e he => ?_, ih hxsPairwise hysPairwise⟩
    rcases (mem_mergeEpisodes _ _).mp he with he | he
    · exact hxs e he
    · exact heq ▸ hys e he

/-- The first episodes of a merge come from the first ones of either list. -/
theorem take_mergeEpisodes {k a b : Nat} (ha : k ≤ a) (hb : k ≤ b) (xs ys : List UInt32) :
    (mergeEpisodes (xs.take a) (ys.take b)).take k = (mergeEpisodes xs ys).take k := by
  induction k generalizing a b xs ys with
  | zero => simp
  | succ k ih =>
    obtain ⟨a, rfl⟩ : ∃ a', a = a' + 1 := ⟨a - 1, by omega⟩
    obtain ⟨b, rfl⟩ : ∃ b', b = b' + 1 := ⟨b - 1, by omega⟩
    cases xs with
    | nil => simp [mergeEpisodes, List.take_take, show min (k + 1) (b + 1) = k + 1 by omega]
    | cons x xs =>
      cases ys with
      | nil => simp [mergeEpisodes, List.take_take, show min k a = k by omega]
      | cons y ys =>
        simp only [List.take_succ_cons, mergeEpisodes]
        split
        · have hrest := ih (a := a) (b := b + 1) (by omega) (by omega) xs (y :: ys)
          rw [List.take_succ_cons] at hrest
          rw [List.take_succ_cons, List.take_succ_cons, hrest]
        · split
          · have hrest := ih (a := a + 1) (b := b) (by omega) (by omega) (x :: xs) ys
            rw [List.take_succ_cons] at hrest
            rw [List.take_succ_cons, List.take_succ_cons, hrest]
          · rw [List.take_succ_cons, List.take_succ_cons, ih (by omega) (by omega)]

/-! ## Schedules in canonical form -/

namespace EvalSchedule

/-- Whether a schedule is in the form that `normalized` produces: a list is ascending. -/
def IsCanonical : EvalSchedule → Prop
  | interval _ => True
  | episodes list => list.Pairwise (· < ·)

/-- A normalized schedule is canonical. -/
theorem normalized_isCanonical (s : EvalSchedule) : s.normalized.IsCanonical := by
  cases s with
  | interval n => trivial
  | episodes list =>
    match list with
    | [] => exact ascending_pairwise []
    | [n] => trivial
    | a :: b :: rest => exact ascending_pairwise (a :: b :: rest)

/-- A canonical list selects its members, except zero. -/
theorem selects_episodes {list : List UInt32} (h : list.Pairwise (· < ·)) (e : UInt32) :
    (episodes list).selects e = true ↔ 0 < e ∧ e ∈ list := by
  simp only [selects, Bool.and_eq_true, decide_eq_true_eq, searchEpisode_iff h (Nat.le_refl _)]

end EvalSchedule

/-! ## Plans -/

/-- A lower bound of at least one. -/
private theorem max_one_le_iff {a e : UInt32} : max a 1 ≤ e ↔ a ≤ e ∧ 0 < e := by
  rw [UInt32.le_iff_toNat_le, toNat_max_one, UInt32.le_iff_toNat_le, UInt32.lt_iff_toNat_lt,
    UInt32.toNat_zero]
  omega

namespace EpisodePlan

/-- Whether the schedule of a plan is canonical, as it is in the plan of a workflow. -/
def IsCanonical (p : EpisodePlan) : Prop :=
  ∀ s ∈ p.evalSchedule, s.IsCanonical

/-- The episodes of a run in order. -/
def episodes (p : EpisodePlan) : List UInt32 :=
  progression 1 p.lastEpisode.toNat episodeLimit p.firstEpisode.toNat

/-- The steps are those of the episodes. -/
theorem steps_eq_map (p : EpisodePlan) : p.steps = p.episodes.map p.step := rfl

/-- The episodes of a run are those from the first to the last one. -/
theorem mem_episodes {p : EpisodePlan} {e : UInt32} :
    e ∈ p.episodes ↔ p.firstEpisode ≤ e ∧ e ≤ p.lastEpisode := by
  rw [episodes, mem_progression Nat.one_pos p.lastEpisode.toNat_lt (lt_add_episodeLimit _ _),
    UInt32.le_iff_toNat_le, UInt32.le_iff_toNat_le]
  refine and_congr_left fun _ => ⟨?_, fun h => ⟨e.toNat - p.firstEpisode.toNat, by omega⟩⟩
  rintro ⟨i, hi⟩
  omega

/-- The episodes of a run are strictly ascending. -/
theorem episodes_pairwise (p : EpisodePlan) : p.episodes.Pairwise (· < ·) :=
  progression_pairwise Nat.one_pos p.lastEpisode.toNat_lt _ _

/-- `evalEpisodes` has the episodes of the run that `step` flags for evaluation. -/
theorem mem_evalEpisodes {p : EpisodePlan} (h : p.IsCanonical) {e : UInt32} :
    e ∈ p.evalEpisodes ↔
      (p.firstEpisode ≤ e ∧ e ≤ p.lastEpisode) ∧ (p.step e).evaluate = true := by
  simp only [evalEpisodes, step]
  cases hs : p.evalSchedule with
  | none => simp
  | some s =>
    cases s with
    | interval n => simp only [mem_multiples, Option.any_some, EvalSchedule.selects]
    | episodes list =>
      have hlist : list.Pairwise (· < ·) := h _ hs
      simp only [List.mem_filter, Bool.and_eq_true, decide_eq_true_eq, Option.any_some,
        EvalSchedule.selects_episodes hlist, max_one_le_iff]
      tauto

/-- `evalEpisodes` is strictly ascending. -/
theorem evalEpisodes_pairwise {p : EpisodePlan} (h : p.IsCanonical) :
    p.evalEpisodes.Pairwise (· < ·) := by
  simp only [evalEpisodes]
  cases hs : p.evalSchedule with
  | none => simp
  | some s =>
    cases s with
    | interval n => exact multiples_pairwise n _ _
    | episodes list =>
      have hlist : list.Pairwise (· < ·) := h _ hs
      exact hlist.filter _

/-- `checkpointEpisodes` has the episodes of the run that `step` flags for a
    checkpoint. -/
theorem mem_checkpointEpisodes {p : EpisodePlan} {e : UInt32} :
    e ∈ p.checkpointEpisodes ↔
      (p.firstEpisode ≤ e ∧ e ≤ p.lastEpisode) ∧ (p.step e).checkpoint = true := by
  simp only [checkpointEpisodes, step, mem_multiples]
  cases p.checkpointInterval with
  | none => simp [isMultiple]
  | some n => simp only [Option.getD_some, Option.any_some]

/-- `checkpointEpisodes` is strictly ascending. -/
theorem checkpointEpisodes_pairwise (p : EpisodePlan) :
    p.checkpointEpisodes.Pairwise (· < ·) :=
  multiples_pairwise _ _ _

/-- Merging the evaluations and the checkpoints gives the steps of the run at which
    something happens. -/
theorem events_eq_filter {p : EpisodePlan} (h : p.IsCanonical) :
    p.events = p.steps.filter EpisodeStep.isEvent := by
  rw [steps_eq_map, List.filter_map, events]
  congr 1
  apply eq_of_mem_iff
  · exact mergeEpisodes_pairwise _ _ (evalEpisodes_pairwise h) p.checkpointEpisodes_pairwise
  · exact p.episodes_pairwise.filter _
  · intro e
    rw [mem_mergeEpisodes, mem_evalEpisodes h, mem_checkpointEpisodes, List.mem_filter,
      mem_episodes]
    simp only [Function.comp_apply, EpisodeStep.isEvent, Bool.or_eq_true]
    tauto

/-- `firstEvals` is a prefix of `evalEpisodes`. -/
theorem firstEvals_eq_take (limit : Nat) (p : EpisodePlan) :
    p.firstEvals limit = p.evalEpisodes.take limit := by
  simp only [firstEvals, evalEpisodes]
  cases p.evalSchedule with
  | none => simp
  | some s =>
    cases s with
    | interval n => exact firstMultiples_eq_take limit n _ _
    | episodes list => rfl

/-- `firstCheckpoints` is a prefix of `checkpointEpisodes`. -/
theorem firstCheckpoints_eq_take (limit : Nat) (p : EpisodePlan) :
    p.firstCheckpoints limit = p.checkpointEpisodes.take limit :=
  firstMultiples_eq_take limit _ _ _

/-- `firstEvents` is a prefix of `events`: the first `limit` evaluations and checkpoints
    are enough to know it. -/
theorem firstEvents_eq_take (limit : Nat) (p : EpisodePlan) :
    p.firstEvents limit = p.events.take limit := by
  simp only [firstEvents, events, firstEvals_eq_take, firstCheckpoints_eq_take,
    take_mergeEpisodes (Nat.le_refl limit) (Nat.le_refl limit), List.map_take]

end EpisodePlan

/-! ## Plans of workflows -/

namespace Workflow

/-- The plan of a workflow is canonical. -/
theorem episodePlan_isCanonical {w : Workflow} {p : EpisodePlan} (h : w.episodePlan = some p) :
    p.IsCanonical := by
  obtain ⟨last, -, rfl⟩ := Option.map_eq_some_iff.mp h
  intro s hs
  obtain ⟨written, -, rfl⟩ := Option.map_eq_some_iff.mp hs
  exact written.normalized_isCanonical

/-- A workflow that bounds its run has a plan, and the events of the plan are its steps
    with an evaluation or a checkpoint, in order. Taking the first few events gives the
    first few of these steps. -/
theorem events_eq_filter_steps {w : Workflow} {last : UInt32}
    (h : w.main.numEpisodes = some last) :
    ∃ p, w.episodePlan = some p ∧ p.lastEpisode = last ∧
      p.events = p.steps.filter EpisodeStep.isEvent ∧
      ∀ limit, p.firstEvents limit = (p.steps.filter EpisodeStep.isEvent).take limit := by
  obtain ⟨p, hp⟩ : ∃ p, w.episodePlan = some p := by simp [episodePlan, h]
  have hevents := EpisodePlan.events_eq_filter (episodePlan_isCanonical hp)
  refine ⟨p, hp, ?_, hevents, fun limit => ?_⟩
  · obtain ⟨n, hn, rfl⟩ := Option.map_eq_some_iff.mp hp
    exact Option.some.inj (hn.symm.trans h)
  · rw [EpisodePlan.firstEvents_eq_take, hevents]

/-- `events_eq_filter_steps` for a resumed run up to the largest episode number, with
    repeats in its schedule and an episode that is both evaluated and checkpointed. -/
theorem events_eq_filter_steps_resumed :
    let w : Workflow := {
      job := "job", scenarioPath := ⟨"scenario"⟩, logPath := ⟨"log"⟩
      main := { numEpisodes := some 4294967295,
                evalSchedule := some (.episodes [4294967295, 10, 4294967294, 10]) }
      training := { loadPath := some ⟨"models"⟩, loadEpisode := some 7,
                    checkpointing := some ⟨⟨"checkpoint"⟩, 2147483647⟩ } }
    w.main.numEpisodes = some 4294967295 ∧
      ∃ p, w.episodePlan = some p ∧ p.lastEpisode = 4294967295 ∧
        p.events = p.steps.filter EpisodeStep.isEvent ∧
        ∀ limit, p.firstEvents limit = (p.steps.filter EpisodeStep.isEvent).take limit :=
  ⟨rfl, events_eq_filter_steps rfl⟩

end Workflow

end RunPlan
