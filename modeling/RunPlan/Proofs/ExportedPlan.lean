import RunPlan.Proofs.Export
import RunPlan.Proofs.Schedule
import RunPlan.Proofs.Validity

/-!
# Plans from exported environments

The environment of the main component shows every number that a plan is made of: numerals
can be told apart, also when they are joined by blanks. It does not show whether a
schedule in canonical form is an interval or a list. That makes a difference for a list of
one episode, which is what remains of a list that repeats the same episode.

## Key results

- `join_decimal32_injective`: lists of numbers are told apart by their exported form
- `EvalSchedule.eq_or_of_envValue_eq`: the schedules with the same exported form
- `Workflow.episodePlan_of_componentEnv_eq`: the exact condition for plans to agree
-/

namespace RunPlan

/-! ## Numbers -/

/-- Numbers joined by blanks are split at the blanks. -/
theorem splitAll_join_decimal32 {list : List UInt32} (h : list ≠ []) :
    Text.splitAll ' ' (Text.join " " (list.map Workflow.decimal32)).toList =
      list.map fun e => (Workflow.decimal32 e).toList := by
  have hblank (e : UInt32) : ' ' ∉ (Workflow.decimal32 e).toList :=
    fun hmem => Bool.noConfusion (Numeral.isDigit_of_mem_ofNat hmem)
  rw [Text.join, String.toList_intercalate, List.map_map]
  apply Text.splitAll_intercalate
  · simpa using h
  · intro piece hpiece
    obtain ⟨e, -, rfl⟩ := List.mem_map.mp hpiece
    exact hblank e

/-- A list of numbers is known from its numerals joined by blanks. -/
theorem join_decimal32_injective {xs ys : List UInt32}
    (h : Text.join " " (xs.map Workflow.decimal32) =
      Text.join " " (ys.map Workflow.decimal32)) : xs = ys := by
  -- only the empty list is written as the empty text
  have hnonempty (e : UInt32) (es : List UInt32) :
      Text.join " " ((e :: es).map Workflow.decimal32) ≠ Text.join " " [] := by
    intro hjoin
    have hempty : Text.splitAll ' ' (Text.join " " []).toList = [[]] := rfl
    have hsplit := splitAll_join_decimal32 (List.cons_ne_nil e es)
    rw [hjoin, hempty, List.map_cons, List.cons.injEq] at hsplit
    have hdigits : (Workflow.decimal32 e).toList ≠ [] := by
      rw [Workflow.decimal32, Numeral.ofNat, String.toList_ofList]
      exact Numeral.toDigits_ne_nil _
    exact hdigits hsplit.1.symm
  cases xs with
  | nil =>
    cases ys with
    | nil => rfl
    | cons y ys => exact absurd h.symm (hnonempty y ys)
  | cons x xs =>
    cases ys with
    | nil => exact absurd h (hnonempty x xs)
    | cons y ys =>
      have hsplit := splitAll_join_decimal32 (List.cons_ne_nil x xs)
      rw [h, splitAll_join_decimal32 (List.cons_ne_nil y ys)] at hsplit
      have hinjective : Function.Injective fun e => (Workflow.decimal32 e).toList :=
        fun _ _ heq => Workflow.decimal32_injective (String.toList_inj.mp heq)
      exact (hinjective.list_map hsplit).symm

/-! ## Schedules -/

namespace EvalSchedule

variable {s t : EvalSchedule} {n : UInt32} {total : Option UInt32}

/-- The numbers that a schedule consists of. -/
def numbers : EvalSchedule → List UInt32
  | interval n => [n]
  | episodes list => list

/-- The exported form shows the numbers of the canonical form, and not which form it is. -/
theorem envValue_eq (s : EvalSchedule) :
    s.envValue = Text.join " " (s.normalized.numbers.map Workflow.decimal32) := by
  rw [envValue]
  cases s.normalized with
  | interval n => exact String.intercalate_singleton.symm
  | episodes list => rfl

/-- Schedules with the same exported form have the same canonical form, or one of them is
    an interval and the other one a list with just that number. -/
theorem eq_or_of_envValue_eq (h : s.envValue = t.envValue) :
    s.normalized = t.normalized ∨
      ∃ n, (s.normalized = interval n ∧ t.normalized = episodes [n]) ∨
        (s.normalized = episodes [n] ∧ t.normalized = interval n) := by
  rw [envValue_eq, envValue_eq] at h
  have hnumbers := join_decimal32_injective h
  cases hs : s.normalized with
  | interval m =>
    cases ht : t.normalized with
    | interval n =>
      rw [hs, ht, numbers, numbers, List.singleton_inj] at hnumbers
      exact Or.inl (congrArg interval hnumbers)
    | episodes list =>
      rw [hs, ht, numbers, numbers] at hnumbers
      exact Or.inr ⟨m, Or.inl ⟨rfl, congrArg episodes hnumbers.symm⟩⟩
  | episodes list =>
    cases ht : t.normalized with
    | interval n =>
      rw [hs, ht, numbers, numbers] at hnumbers
      exact Or.inr ⟨n, Or.inr ⟨congrArg episodes hnumbers, rfl⟩⟩
    | episodes list' =>
      rw [hs, ht, numbers, numbers] at hnumbers
      exact Or.inl (congrArg episodes hnumbers)

/-- The canonical form is a list of one episode exactly for lists that repeat it. -/
theorem normalized_eq_singleton_iff :
    s.normalized = episodes [n] ↔ ∃ k, s = episodes (List.replicate (k + 2) n) := by
  constructor
  · intro h
    -- a list in canonical form has the members of the list it is made from
    have hall {list : List UInt32} (hlist : episodes (ascending list) = episodes [n]) :
        list = List.replicate list.length n := by
      rw [List.eq_replicate_iff]
      refine ⟨rfl, fun e he => ?_⟩
      rw [← mem_ascending, EvalSchedule.episodes.inj hlist] at he
      exact List.mem_singleton.mp he
    cases s with
    | interval m => cases h
    | episodes list =>
      match list with
      | [] => cases EvalSchedule.episodes.inj h
      | [m] => cases h
      | a :: b :: rest => exact ⟨rest.length, congrArg episodes (hall h)⟩
  · rintro ⟨k, rfl⟩
    refine congrArg episodes ?_
    apply eq_of_mem_iff (ascending_pairwise _) (List.pairwise_singleton _ n)
    intro e
    have hmem : e ∈ List.replicate (k + 2) n ↔ e = n := by simp
    rw [mem_ascending, List.mem_singleton]
    exact hmem

/-- Whether a schedule lists a single episode, more than once, that has further multiples.
    Its canonical form is a list of that episode alone, which is exported like the interval
    that goes on with these. -/
def LooksLikeInterval (s : EvalSchedule) : Prop :=
  ∃ n k, s = episodes (List.replicate (k + 2) n) ∧ 2 * n.toNat < 2 ^ 32

theorem looksLikeInterval_iff :
    s.LooksLikeInterval ↔ ∃ n, s.normalized = episodes [n] ∧ 2 * n.toNat < 2 ^ 32 := by
  simp only [LooksLikeInterval, normalized_eq_singleton_iff, exists_and_right]

/-- An interval selects the same episodes as the list of its first multiple exactly when
    there is no second one. -/
theorem selects_interval_iff (hn : 1 ≤ n) :
    (∀ e, (interval n).selects e = (episodes [n]).selects e) ↔ ¬2 * n.toNat < 2 ^ 32 := by
  have hpos : 1 ≤ n.toNat := UInt32.le_iff_toNat_le.mp hn
  have hlist (e : UInt32) : (episodes [n]).selects e = true ↔ 0 < e.toNat ∧ e.toNat = n.toNat := by
    rw [selects_episodes (List.pairwise_singleton _ n), List.mem_singleton,
      UInt32.lt_iff_toNat_lt, UInt32.toNat_zero, UInt32.toNat_inj]
  have hinterval (e : UInt32) :
      (interval n).selects e = true ↔ 0 < e.toNat ∧ n.toNat ∣ e.toNat := by
    rw [selects, isMultiple_iff]
    exact and_congr_right fun _ => and_iff_right hpos
  simp only [Bool.eq_iff_iff, hlist, hinterval, and_congr_right_iff]
  constructor
  · intro h hlt
    -- the second multiple tells the two apart
    have hsecond : (UInt32.ofNat (2 * n.toNat)).toNat = 2 * n.toNat :=
      UInt32.toNat_ofNat_of_lt' hlt
    have hiff := h (UInt32.ofNat (2 * n.toNat))
    rw [hsecond] at hiff
    have heq : 2 * n.toNat = n.toNat := (hiff (by omega)).mp (Nat.dvd_mul_left _ 2)
    omega
  · intro hlarge e he
    refine ⟨?_, fun heq => heq ▸ Nat.dvd_refl _⟩
    -- a multiple other than the first one would be at least the second one
    rintro ⟨j, hj⟩
    have hbound := e.toNat_lt
    have hone : j = 1 := by
      rcases j with _ | _ | j
      · omega
      · rfl
      · have hle : n.toNat * 2 ≤ n.toNat * (j + 1 + 1) := Nat.mul_le_mul_left _ (by omega)
        omega
    rw [hj, hone, Nat.mul_one]

/-- A valid list that repeats an episode does not repeat zero. -/
theorem IsValid.pos_of_singleton (h : s.IsValid total) (hs : s.normalized = episodes [n]) :
    1 ≤ n := by
  obtain ⟨k, rfl⟩ := normalized_eq_singleton_iff.mp hs
  exact (h.2 n List.mem_cons_self).1

/-- An interval and a list that is exported alike select the same episodes exactly when the
    list does not look like an interval. -/
theorem selects_eq_iff_not_looksLikeInterval (ht : t.IsValid total)
    (hinterval : s.normalized = interval n) (hlist : t.normalized = episodes [n]) :
    (∀ e, s.normalized.selects e = t.normalized.selects e) ↔
      (s.LooksLikeInterval ↔ t.LooksLikeInterval) := by
  have hs : ¬s.LooksLikeInterval := by
    rw [looksLikeInterval_iff, hinterval]
    rintro ⟨m, hm, -⟩
    cases hm
  have ht' : t.LooksLikeInterval ↔ 2 * n.toNat < 2 ^ 32 := by
    simp [looksLikeInterval_iff, hlist]
  rw [hinterval, hlist, selects_interval_iff (ht.pos_of_singleton hlist), ht']
  exact ⟨fun h => iff_of_false hs h, fun h hlt => hs (h.mpr hlt)⟩

/-- Schedules with the same exported form select the same episodes exactly when both or
    none of them look like intervals without being ones. -/
theorem selects_eq_iff_of_envValue_eq {total' : Option UInt32} (hs : s.IsValid total)
    (ht : t.IsValid total') (h : s.envValue = t.envValue) :
    (∀ e, s.normalized.selects e = t.normalized.selects e) ↔
      (s.LooksLikeInterval ↔ t.LooksLikeInterval) := by
  obtain heq | ⟨n, ⟨hinterval, hlist⟩ | ⟨hlist, hinterval⟩⟩ := eq_or_of_envValue_eq h
  · rw [looksLikeInterval_iff, looksLikeInterval_iff, heq]
    exact iff_of_true (fun _ => rfl) Iff.rfl
  · exact selects_eq_iff_not_looksLikeInterval ht hinterval hlist
  · have hiff := selects_eq_iff_not_looksLikeInterval hs hinterval hlist
    exact (forall_congr' fun _ => eq_comm).trans (hiff.trans iff_comm)

end EvalSchedule

/-! ## Plans -/

namespace Workflow

variable {u v : Workflow} {p q : EpisodePlan}

/-- What the main component reads of a plan, apart from the schedule's form. -/
structure SameExports (u v : Workflow) : Prop where
  numEpisodes : u.main.numEpisodes = v.main.numEpisodes
  numSteps : u.main.numSteps = v.main.numSteps
  evalSchedule : u.main.evalSchedule.map EvalSchedule.envValue =
    v.main.evalSchedule.map EvalSchedule.envValue
  loadPath : u.training.loadPath = v.training.loadPath
  loadEpisode : u.training.loadEpisode = v.training.loadEpisode
  checkpointInterval : u.training.checkpointing.map (·.interval) =
    v.training.checkpointing.map (·.interval)

/-- Each setting of a plan has a variable of its own. -/
theorem sameExports_of_componentEnv_eq (h : u.componentEnv .main = v.componentEnv .main) :
    SameExports u v := by
  have hread (name : String) : ((u.allVariables .main).lookup name).join =
      ((v.allVariables .main).lookup name).join := by
    rw [← get?_componentEnv, h, get?_componentEnv]
  have htext : Function.Injective Path.text := fun ⟨_⟩ ⟨_⟩ heq => congrArg Path.mk heq
  have hinterval : (u.training.checkpointing.map (·.interval)).map decimal32 =
      (v.training.checkpointing.map (·.interval)).map decimal32 := by
    rw [Option.map_map, Option.map_map]
    exact hread "CHECKPOINT_INTERVAL"
  exact {
    numEpisodes := Option.map_injective decimal32_injective (hread "NUM_EPISODES")
    numSteps := Option.map_injective decimal32_injective (hread "NUM_STEPS")
    evalSchedule := hread "EVAL_SCHEDULE"
    loadPath := Option.map_injective htext (hread "LOAD_PATH")
    loadEpisode := Option.map_injective decimal32_injective (hread "LOAD_EPISODE")
    checkpointInterval := Option.map_injective decimal32_injective hinterval }

/-- Workflows that export the same settings have plans of the same range. -/
theorem SameExports.plan (h : SameExports u v) (hp : u.episodePlan = some p)
    (hq : v.episodePlan = some q) :
    p.firstEpisode = q.firstEpisode ∧ p.lastEpisode = q.lastEpisode ∧
      p.maxSteps = q.maxSteps ∧ p.checkpointInterval = q.checkpointInterval := by
  obtain ⟨last, hlast, rfl⟩ := Option.map_eq_some_iff.mp hp
  obtain ⟨last', hlast', rfl⟩ := Option.map_eq_some_iff.mp hq
  have hsame : some last = some last' := by rw [← hlast, ← hlast', h.numEpisodes]
  refine ⟨?_, Option.some.inj hsame, h.numSteps, h.checkpointInterval⟩
  simp only [firstEpisode, h.loadPath, h.loadEpisode]

/-- Plans of valid workflows that export the same settings evaluate after the same episodes
    exactly when both or none of the schedules look like intervals without being ones. -/
theorem SameExports.evaluate_eq_iff (h : SameExports u v) (hu : u.problems = [])
    (hv : v.problems = []) (hp : u.episodePlan = some p) (hq : v.episodePlan = some q) :
    (∀ e, (p.step e).evaluate = (q.step e).evaluate) ↔
      ((∃ s ∈ u.main.evalSchedule, s.LooksLikeInterval) ↔
        ∃ s ∈ v.main.evalSchedule, s.LooksLikeInterval) := by
  obtain ⟨last, -, rfl⟩ := Option.map_eq_some_iff.mp hp
  obtain ⟨last', -, rfl⟩ := Option.map_eq_some_iff.mp hq
  have hschedule := h.evalSchedule
  simp only [EpisodePlan.step]
  cases hs : u.main.evalSchedule with
  | none =>
    cases ht : v.main.evalSchedule with
    | none => simp
    | some t => simp [hs, ht] at hschedule
  | some s =>
    cases ht : v.main.evalSchedule with
    | none => simp [hs, ht] at hschedule
    | some t =>
      rw [hs, ht, Option.map_some, Option.map_some, Option.some.injEq] at hschedule
      simp only [Option.map_some, Option.any_some, Option.mem_def, Option.some.injEq,
        exists_eq_left']
      exact EvalSchedule.selects_eq_iff_of_envValue_eq ((main_isValid hu).evalSchedule s hs)
        ((main_isValid hv).evalSchedule t ht) hschedule

/-- Workflows without problems and with the same environment for the main component have
    plans of the same range, step cap and checkpoints. Their steps agree, and with them
    the evaluations, exactly when both or none of the schedules look like intervals
    without being ones. -/
theorem episodePlan_of_componentEnv_eq (hu : u.problems = []) (hv : v.problems = [])
    (hn : u.main.numEpisodes.isSome) (henv : u.componentEnv .main = v.componentEnv .main) :
    ∃ p q, u.episodePlan = some p ∧ v.episodePlan = some q ∧
      p.firstEpisode = q.firstEpisode ∧ p.lastEpisode = q.lastEpisode ∧
      p.maxSteps = q.maxSteps ∧ p.checkpointEpisodes = q.checkpointEpisodes ∧
      ((∀ e, p.step e = q.step e) → p.evalEpisodes = q.evalEpisodes) ∧
      ((∀ e, p.step e = q.step e) ↔
        ((∃ s ∈ u.main.evalSchedule, s.LooksLikeInterval) ↔
          ∃ s ∈ v.main.evalSchedule, s.LooksLikeInterval)) := by
  have hexports := sameExports_of_componentEnv_eq henv
  obtain ⟨last, hlast⟩ := Option.isSome_iff_exists.mp hn
  obtain ⟨p, hp⟩ : ∃ p, u.episodePlan = some p := by simp [episodePlan, hlast]
  obtain ⟨q, hq⟩ : ∃ q, v.episodePlan = some q := by
    simp [episodePlan, ← hexports.numEpisodes, hlast]
  obtain ⟨hfirst, hlast, hsteps, hinterval⟩ := hexports.plan hp hq
  -- checkpoints agree already, so steps can only differ in their evaluations
  have hstep (e : UInt32) :
      p.step e = q.step e ↔ (p.step e).evaluate = (q.step e).evaluate := by
    simp [EpisodePlan.step, hinterval]
  refine ⟨p, q, hp, hq, hfirst, hlast, hsteps, ?_, ?_, ?_⟩
  · rw [EpisodePlan.checkpointEpisodes, EpisodePlan.checkpointEpisodes, hinterval, hfirst, hlast]
  · intro hall
    have hcanonical := episodePlan_isCanonical hp
    have hcanonical' := episodePlan_isCanonical hq
    apply eq_of_mem_iff (EpisodePlan.evalEpisodes_pairwise hcanonical)
      (EpisodePlan.evalEpisodes_pairwise hcanonical')
    intro e
    rw [EpisodePlan.mem_evalEpisodes hcanonical, EpisodePlan.mem_evalEpisodes hcanonical',
      hfirst, hlast, hall]
  · simp only [hstep]
    exact hexports.evaluate_eq_iff hu hv hp hq

/-- Two documents that write one schedule differently, resume from the same run, and differ
    in what the main component is not told. -/
theorem episodePlan_of_componentEnv_eq_resumed :
    let document (list : List UInt32) (host : String) : Workflow := {
      job := "job", scenarioPath := ⟨"scenario"⟩, logPath := ⟨"log/job.txt"⟩
      main := { numEpisodes := some 40, evalSchedule := some (.episodes list) }
      rollout.parallelism := some { controller := some { host, port := 5000 } }
      training := { loadPath := some ⟨"models"⟩, loadEpisode := some 7,
                    checkpointing := some ⟨⟨"checkpoint"⟩, 5⟩ } }
    let u := document [20, 3, 20] "a"
    let v := document [3, 20] "b"
    u.problems = [] ∧ v.problems = [] ∧ u.main.numEpisodes.isSome ∧
      u.componentEnv .main = v.componentEnv .main ∧
      ∃ p q, u.episodePlan = some p ∧ v.episodePlan = some q ∧
        p.firstEpisode = q.firstEpisode ∧ p.lastEpisode = q.lastEpisode ∧
        p.maxSteps = q.maxSteps ∧ p.checkpointEpisodes = q.checkpointEpisodes ∧
        ((∀ e, p.step e = q.step e) → p.evalEpisodes = q.evalEpisodes) ∧
        ((∀ e, p.step e = q.step e) ↔
          ((∃ s ∈ u.main.evalSchedule, s.LooksLikeInterval) ↔
            ∃ s ∈ v.main.evalSchedule, s.LooksLikeInterval)) := by
  intro document u v
  have hu : u.problems = [] := by decide
  have hv : v.problems = [] := by decide
  have henv : u.componentEnv .main = v.componentEnv .main := by rfl
  exact ⟨hu, hv, rfl, henv, episodePlan_of_componentEnv_eq hu hv rfl henv⟩

/-- A list that repeats one episode has the environment of the interval, and does not go on
    like the interval after that episode. -/
theorem componentEnv_eq_and_step_ne :
    let document (s : EvalSchedule) : Workflow := {
      job := "job", scenarioPath := ⟨"a"⟩, logPath := ⟨"l"⟩
      main := { numEpisodes := some 10, evalSchedule := some s } }
    let u := document (.episodes [5, 5])
    let v := document (.interval 5)
    u.problems = [] ∧ v.problems = [] ∧ u.main.numEpisodes = some 10 ∧
      v.main.numEpisodes = some 10 ∧ u.componentEnv .main = v.componentEnv .main ∧
      ∃ p q, u.episodePlan = some p ∧ v.episodePlan = some q ∧ p.step 10 ≠ q.step 10 := by
  intro document u v
  exact ⟨by decide, by decide, rfl, rfl, by rfl, _, _, rfl, rfl, by decide⟩

end Workflow

end RunPlan
