import RunPlan.Proofs.DocumentOrder
import RunPlan.Proofs.Problem
import RunPlan.Workflow.Load

/-!
# The order of problems

The checks of a section are made one after the other, each about one setting, and find a problem
or none. So the settings of all problems are among those of all checks, in the order of the checks,
and it is enough to look at that order.

It is the order of the document but for one pair. Whether parallel training has its proxy is
checked at the end, after the number of workers. When the proxy is missing and the number of
workers is zero, these two problems are the last ones and come the other way round.

## Key results

- `Workflow.exists_within_earlierProblems`: the settings of the checks up to checkpointing
- `TrainingSection.within_processProblems`, `TrainingSection.processProblems_of_reportsProxyLate`:
  the settings of the checks of training processes
- `Workflow.problems_inDocumentOrder_iff`: exactly when problems are in the order of the document
-/

namespace RunPlan

/-- Whether problems are about the given settings, in that order, some of them left out. -/
def Within (problems : List Problem) (settings : List Setting) : Prop :=
  (problems.map (·.setting)).Sublist settings

namespace Within

variable {α : Type} {ps qs : List Problem} {as bs : List Setting} {setting : Setting}

theorem nil (as : List Setting) : Within [] as :=
  List.nil_sublist as

theorem append (h : Within ps as) (h' : Within qs bs) : Within (ps ++ qs) (as ++ bs) := by
  rw [Within, List.map_append]
  exact List.Sublist.append h h'

theorem mono (h : Within ps as) (h' : as.Sublist bs) : Within ps bs :=
  List.Sublist.trans h h'

theorem inDocumentOrder (h : Within ps as) (has : InDocumentOrder as) :
    InDocumentOrder (ps.map (·.setting)) :=
  List.Pairwise.sublist h has

/-- A check of a setting finds a problem there or none. -/
theorem problemAt (setting : Setting) (fault : Option Fault) :
    Within (problemAt setting fault) [setting] := by
  cases fault with
  | none => exact nil _
  | some fault => exact .refl _

/-- A condition on a setting fails or not. -/
theorem problemWhen (condition : Bool) (setting : Setting) (fault : Fault) :
    Within (problemWhen condition setting fault) [setting] := by
  cases condition with
  | false => exact nil _
  | true => exact .refl _

/-- An optional section has problems only if it is there. -/
theorem optional {f : α → List Problem} (h : ∀ a, Within (f a) as) (o : Option α) :
    Within ((o.map f).getD []) as := by
  cases o with
  | none => exact nil _
  | some a => exact h a

end Within

/-! ## Sections -/

/-- The settings of the checks of listed episodes, two for each. -/
def itemSettings (index count : Nat) : List Setting :=
  (List.range' index count).flatMap fun i => [.evalScheduleItem i, .evalScheduleItem i]

theorem within_episodeProblems (total : Option UInt32) (index : Nat) (e : UInt32) :
    Within (episodeProblems total index e) [.evalScheduleItem index, .evalScheduleItem index] := by
  refine (Within.problemAt _ _).append ?_
  cases total with
  | none => exact .nil _
  | some n => exact .problemWhen _ _ _

/-- Listed episodes are checked in the order of their indices. -/
theorem within_listProblems (total : Option UInt32) (index : Nat) (list : List UInt32) :
    Within (listProblems total index list) (itemSettings index list.length) := by
  induction list generalizing index with
  | nil => exact .nil _
  | cons e list ih => exact (within_episodeProblems total index e).append (ih (index + 1))

theorem EvalSchedule.exists_within_problems (s : EvalSchedule) (total : Option UInt32) :
    ∃ count, Within (s.problems total) (.evalSchedule :: itemSettings 0 count) := by
  cases s with
  | interval n => exact ⟨0, .problemAt _ _⟩
  | episodes list =>
    exact ⟨list.length, (Within.problemWhen _ _ _).append (within_listProblems total 0 list)⟩

theorem MainSection.exists_within_problems (m : MainSection) :
    ∃ count, Within m.problems
      ([.numEpisodes, .numSteps] ++ .evalSchedule :: itemSettings 0 count) := by
  have hcounts : Within
      (problemAtOption .numEpisodes checkPositive m.numEpisodes ++
        problemAtOption .numSteps checkPositive m.numSteps) [.numEpisodes, .numSteps] :=
    (Within.problemAt _ _).append (.problemAt _ _)
  rw [problems]
  cases m.evalSchedule with
  | none => exact ⟨0, hcounts.append (.nil _)⟩
  | some s =>
    obtain ⟨count, hschedule⟩ := s.exists_within_problems m.numEpisodes
    exact ⟨count, hcounts.append hschedule⟩

theorem Parallelism.within_controllerProblems (p : Parallelism) :
    Within p.controllerProblems [.controller, .controllerHost, .controllerPort] := by
  rw [controllerProblems]
  split
  -- a controller has the problems of its fields, a missing one that of its own place
  · exact ((Within.problemAt _ _).append (.problemAt _ _)).mono (by decide)
  · exact (Within.problemWhen _ _ _).mono (by decide)

theorem Parallelism.within_problems (p : Parallelism) :
    Within p.problems [.sampling, .evalParallelism, .minEnvSamples, .minEnvSamples, .graceFactor,
      .controller, .controllerHost, .controllerPort] :=
  (Within.problemAt _ _).append (.problemAt _ _) |>.append (.problemAt _ _)
    |>.append (.problemWhen _ _ _) |>.append (.problemAt _ _)
    |>.append p.within_controllerProblems

theorem TrainingSection.within_resumeProblems (t : TrainingSection) (total : Option UInt32) :
    Within (t.resumeProblems total) [.loadEpisode, .loadEpisode] := by
  rw [resumeProblems]
  cases t.loadEpisode with
  | none => exact .nil _
  | some e =>
    refine (Within.problemWhen _ _ _).append ?_
    cases total with
    | none => exact .nil _
    | some n => exact .problemWhen _ _ _

theorem Checkpointing.within_problems (c : Checkpointing) :
    Within c.problems [.checkpointPath, .checkpointInterval] :=
  (Within.problemAt _ _).append (.problemAt _ _)

theorem Proxy.within_problems (p : Proxy) :
    Within p.problems [.proxyHost, .proxyFrontend, .proxyBackend, .proxyBackend] :=
  (Within.problemAt _ _).append (.problemAt _ _) |>.append (.problemAt _ _)
    |>.append (.problemWhen _ _ _)

/-! ### Training processes -/

/-- There are no workers for training. -/
def Problem.zeroWorkers : Problem :=
  ⟨.numWorkers, .notPositive⟩

/-- There is no proxy for parallel training. -/
def Problem.missingProxy : Problem :=
  ⟨.proxy, .missingProxy⟩

namespace TrainingSection

variable {t : TrainingSection}

/-- Problems of the proxy and the workers of training, and of their absence. -/
def processProblems (t : TrainingSection) : List Problem :=
  (t.proxy.map Proxy.problems).getD [] ++
    problemAtOption .numWorkers checkPositive t.numWorkers ++
    t.modeProblems

/-- Whether parallel training has no proxy, and a number of workers that is reported before
    that. -/
structure ReportsProxyLate (t : TrainingSection) : Prop where
  mode : t.mode = .parallel
  proxy : t.proxy = none
  numWorkers : t.numWorkers = some 0

theorem processProblems_of_reportsProxyLate (h : t.ReportsProxyLate) :
    t.processProblems = [.zeroWorkers, .missingProxy] := by
  rw [processProblems, modeProblems, h.mode, h.proxy, h.numWorkers]
  rfl

/-- The settings of the checks of training processes. -/
def processSettings : List Setting :=
  [.proxy, .proxyHost, .proxyFrontend, .proxyBackend, .proxyBackend, .numWorkers, .numWorkers]

/-- A proxy that is there is checked before the workers, whatever they miss. -/
theorem within_processProblems_of_proxy {p : Proxy} (h : t.proxy = some p) :
    Within t.processProblems processSettings := by
  have hmode : Within t.modeProblems [.numWorkers] := by
    rw [modeProblems, h]
    cases t.mode with
    | simple => exact .nil _
    | parallel => exact .problemWhen _ _ _
  rw [processProblems, h]
  exact ((p.within_problems.append (.problemAt _ _)).append hmode).mono (by decide)

/-- Without a proxy there is one problem of the workers at most, or none before the proxy. -/
theorem within_processProblems_of_none (h : t.proxy = none) (hlate : ¬t.ReportsProxyLate) :
    Within t.processProblems [.proxy, .numWorkers] := by
  rw [processProblems, modeProblems, h]
  cases hmode : t.mode with
  | simple =>
    rw [List.append_nil]
    exact (Within.problemAt _ _).mono (by decide)
  | parallel =>
    -- a number of workers is not zero here, so that nothing is reported before the proxy
    have hworkers : problemAtOption .numWorkers checkPositive t.numWorkers = [] := by
      rw [problemAtOption_eq_nil_iff]
      intro n hn
      rw [checkPositive, if_neg]
      rintro rfl
      exact hlate ⟨hmode, h, hn⟩
    rw [hworkers]
    exact (Within.problemWhen _ _ _).append (.problemWhen _ _ _)

theorem within_processProblems (hlate : ¬t.ReportsProxyLate) :
    Within t.processProblems processSettings := by
  cases hproxy : t.proxy with
  | some p => exact within_processProblems_of_proxy hproxy
  | none => exact (within_processProblems_of_none hproxy hlate).mono (by decide)

end TrainingSection

/-! ## Workflows -/

namespace Workflow

open TrainingSection (processSettings)

/-- All problems but those of training processes. -/
def earlierProblems (w : Workflow) : List Problem :=
  (problemAt .job (checkJobName w.job) ++
    problemAt .scenarioPath (checkPath w.scenarioPath) ++
    problemAt .logPath (checkPath w.logPath) ++
    w.main.problems) ++
  ((w.rollout.parallelism.map Parallelism.problems).getD [] ++
    problemAtOption .loadPath checkPath w.training.loadPath ++
    w.training.resumeProblems w.main.numEpisodes ++
    (w.training.checkpointing.map Checkpointing.problems).getD [])

theorem problems_eq (w : Workflow) :
    w.problems = w.earlierProblems ++ w.training.processProblems := by
  simp only [problems, TrainingSection.problems, earlierProblems,
    TrainingSection.processProblems, List.append_assoc]

/-- The settings of the checks before those of listed episodes. -/
def firstSettings : List Setting :=
  [.job, .scenarioPath, .logPath, .numEpisodes, .numSteps, .evalSchedule]

/-- The settings of the checks from those of listed episodes up to training processes. -/
def middleSettings : List Setting :=
  [.sampling, .evalParallelism, .minEnvSamples, .minEnvSamples, .graceFactor, .controller,
    .controllerHost, .controllerPort, .loadPath, .loadEpisode, .loadEpisode, .checkpointPath,
    .checkpointInterval]

theorem exists_within_earlierProblems (w : Workflow) :
    ∃ count, Within w.earlierProblems (firstSettings ++ itemSettings 0 count ++ middleSettings) := by
  obtain ⟨count, hmain⟩ := w.main.exists_within_problems
  refine ⟨count, Within.append ?first ?middle⟩
  case first =>
    exact (Within.problemAt _ _).append (.problemAt _ _) |>.append (.problemAt _ _)
      |>.append hmain
  case middle =>
    exact (Within.optional Parallelism.within_problems _).append (.problemAt _ _)
      |>.append (w.training.within_resumeProblems _)
      |>.append (.optional Checkpointing.within_problems _)

end Workflow

/-! ## The order of checks -/

namespace Setting

/-- The place of a listed episode is below that of the schedule, in the third field of the
    fourth section. -/
theorem place_evalScheduleItem (i : Nat) :
    Schema.workflow.place (evalScheduleItem i).steps = [3, 2, i] := by
  rfl

/-- Listed episodes are in the order of their indices. -/
theorem notAfter_evalScheduleItem {i j : Nat} (h : i ≤ j) :
    (evalScheduleItem i).NotAfter (evalScheduleItem j) := by
  rw [NotAfter, Schema.Precedes, place_evalScheduleItem, place_evalScheduleItem]
  simp only [List.cons_lex_cons_iff, List.not_lex_nil, and_false, or_false]
  omega

/-- They come after their schedule. -/
theorem evalSchedule_notAfter_item (i : Nat) : evalSchedule.NotAfter (evalScheduleItem i) := by
  have hplace : Schema.workflow.place evalSchedule.steps = [3, 2] := rfl
  rw [NotAfter, Schema.Precedes, place_evalScheduleItem, hplace]
  simp only [List.cons_lex_cons_iff, List.not_lex_nil, and_false, or_false]
  omega

/-- They come before everything outside the `main` section. -/
theorem evalScheduleItem_notAfter_sampling (i : Nat) :
    (evalScheduleItem i).NotAfter sampling := by
  have hplace : Schema.workflow.place sampling.steps = [4, 0, 0] := rfl
  rw [NotAfter, Schema.Precedes, place_evalScheduleItem, hplace]
  simp only [List.cons_lex_cons_iff]
  omega

end Setting

theorem mem_itemSettings {index count : Nat} {s : Setting} (h : s ∈ itemSettings index count) :
    ∃ i, s = .evalScheduleItem i := by
  obtain ⟨i, -, hs⟩ := List.mem_flatMap.mp h
  exact ⟨i, by simpa using hs⟩

theorem inDocumentOrder_itemSettings (index count : Nat) :
    InDocumentOrder (itemSettings index count) := by
  rw [InDocumentOrder, itemSettings, List.pairwise_flatMap]
  refine ⟨fun i _ => ?_, (List.pairwise_lt_range' 1).imp fun hij a ha b hb => ?_⟩
  · simpa using Setting.NotAfter.refl (.evalScheduleItem i)
  · obtain rfl : a = _ := by simpa using ha
    obtain rfl : b = _ := by simpa using hb
    exact Setting.notAfter_evalScheduleItem (Nat.le_of_lt hij)

namespace Workflow

open TrainingSection (processSettings)

variable {w : Workflow}

/-- The checks are made in the order of the document, when the proxy is looked for at its
    place. -/
theorem inDocumentOrder_settings (count : Nat) :
    InDocumentOrder (firstSettings ++ itemSettings 0 count ++ middleSettings ++ processSettings) := by
  -- the listed episodes are between the schedule and the sections that follow
  have hmain : InDocumentOrder (firstSettings ++ itemSettings 0 count) := by
    apply InDocumentOrder.append (by decide) (inDocumentOrder_itemSettings 0 count)
    · exact (by decide : ∀ a ∈ firstSettings, a.NotAfter .evalSchedule)
    · intro b hb
      obtain ⟨i, rfl⟩ := mem_itemSettings hb
      exact Setting.evalSchedule_notAfter_item i
  rw [List.append_assoc]
  apply hmain.append (c := .sampling) (by decide)
  · intro a ha
    rcases List.mem_append.mp ha with ha | ha
    · exact (by decide : ∀ a ∈ firstSettings, a.NotAfter .sampling) a ha
    · obtain ⟨i, rfl⟩ := mem_itemSettings ha
      exact Setting.evalScheduleItem_notAfter_sampling i
  · exact (by decide : ∀ b ∈ middleSettings ++ processSettings, Setting.sampling.NotAfter b)

/-- The problems before those of training processes are in the order of the document, and so
    are other problems after them that are listed at their places. -/
theorem earlierProblems_append_inDocumentOrder (w : Workflow) {ps : List Problem}
    (h : Within ps processSettings) :
    InDocumentOrder ((w.earlierProblems ++ ps).map (·.setting)) := by
  obtain ⟨count, hearlier⟩ := w.exists_within_earlierProblems
  exact (hearlier.append h).inDocumentOrder (inDocumentOrder_settings count)

/-- Problems are in the order of the document when the proxy is not reported late. -/
theorem problems_inDocumentOrder (h : ¬w.training.ReportsProxyLate) :
    InDocumentOrder (w.problems.map (·.setting)) := by
  rw [problems_eq]
  exact w.earlierProblems_append_inDocumentOrder (TrainingSection.within_processProblems h)

/-- The field of the workers comes after that of the proxy. -/
theorem not_numWorkers_notAfter_proxy : ¬Setting.numWorkers.NotAfter .proxy := by
  decide

/-- A proxy that is reported late is reported last, after the workers. All other problems are
    where they belong. -/
theorem exists_of_reportsProxyLate (h : w.training.ReportsProxyLate) :
    ∃ before, w.problems = before ++ [.zeroWorkers, .missingProxy] ∧
      InDocumentOrder ((before ++ [.missingProxy, .zeroWorkers]).map (·.setting)) := by
  refine ⟨w.earlierProblems, ?_, ?_⟩
  · rw [problems_eq, TrainingSection.processProblems_of_reportsProxyLate h]
  · -- The two problems the other way round are in the order of the checks at their places
    have hpair : Within [.missingProxy, .zeroWorkers] processSettings := by
      rw [Within]
      decide
    exact w.earlierProblems_append_inDocumentOrder hpair

/-- Problems are in the order of the document exactly when the proxy is not reported late. -/
theorem inDocumentOrder_iff :
    InDocumentOrder (w.problems.map (·.setting)) ↔ ¬w.training.ReportsProxyLate := by
  refine ⟨fun horder hlate => ?_, problems_inDocumentOrder⟩
  obtain ⟨before, hproblems, -⟩ := exists_of_reportsProxyLate hlate
  rw [hproblems, List.map_append] at horder
  obtain ⟨-, hswapped, -⟩ := List.pairwise_append.mp horder
  exact absurd hswapped (by decide)

/-- Whether an error names the setting of a problem that no problem of the workflow comes
    before. -/
def NamesFirst (w : Workflow) (e : WorkflowError) : Prop :=
  ∃ p ∈ w.problems, e.field = some p.setting.path ∧
    ∀ q ∈ w.problems, p.setting.NotAfter q.setting

/-- The first problem of a list in the order of the document comes before all others. -/
theorem notAfter_of_inDocumentOrder {p : Problem} {ps : List Problem}
    (h : InDocumentOrder ((p :: ps).map (·.setting))) :
    ∀ q ∈ p :: ps, p.setting.NotAfter q.setting := by
  rw [List.map_cons, InDocumentOrder, List.pairwise_cons] at h
  rw [List.forall_mem_cons]
  exact ⟨.refl _, fun q hq => h.1 _ (List.mem_map_of_mem hq)⟩

/-- The problem that is listed first comes before all others, unless it is that of the workers
    and the proxy is missing. -/
theorem notAfter_of_problems_eq_cons {p : Problem} {ps : List Problem}
    (hproblems : w.problems = p :: ps) (hne : w.problems ≠ [.zeroWorkers, .missingProxy]) :
    ∀ q ∈ w.problems, p.setting.NotAfter q.setting := by
  by_cases hlate : w.training.ReportsProxyLate
  · obtain ⟨before, hswapped, horder⟩ := exists_of_reportsProxyLate hlate
    cases before with
    | nil => exact absurd hswapped hne
    | cons first before =>
      -- to swap the two problems at the end does not change which ones there are
      obtain ⟨rfl, -⟩ := List.cons.inj (hproblems.symm.trans hswapped)
      intro q hq
      apply notAfter_of_inDocumentOrder horder q
      rw [hswapped] at hq
      simpa [or_comm, or_left_comm] using hq
  · have horder := problems_inDocumentOrder hlate
    rw [hproblems] at horder ⊢
    exact notAfter_of_inDocumentOrder horder

/-- Validation names the first field with a problem, unless its only problems are those of the
    workers and of the missing proxy. -/
theorem namesFirst_iff :
    (∀ e, w.validate = .error e → w.NamesFirst e) ↔
      w.problems ≠ [.zeroWorkers, .missingProxy] := by
  constructor
  · intro h hproblems
    have hvalidate : w.validate = .error (.invalid .zeroWorkers) := by
      rw [validate, hproblems]
    obtain ⟨p, hp, hfield, hfirst⟩ := h _ hvalidate
    rw [hproblems, List.mem_cons, List.mem_singleton] at hp
    rcases hp with rfl | rfl
    -- the error is about the workers, and the proxy comes before these
    · have hproxy := hfirst .missingProxy (by simp [hproblems])
      exact not_numWorkers_notAfter_proxy hproxy
    · exact absurd hfield (by decide)
  · intro hne e he
    cases hproblems : w.problems with
    | nil =>
      rw [validate, hproblems] at he
      cases he
    | cons p ps =>
      rw [validate, hproblems] at he
      obtain rfl := Except.error.inj he
      refine ⟨p, by simp [hproblems], rfl, ?_⟩
      exact notAfter_of_problems_eq_cons hproblems hne

/-- Problems are reported by the paths of declared places, and listed in the order in which
    these are declared and printed, except that a missing proxy comes after workers whose number
    is zero: these are the last two problems, and validation names the first field with a problem
    unless there is no other one. -/
theorem problems_inDocumentOrder_iff (w : Workflow) :
    (∀ p ∈ w.problems, Schema.workflow.declares p.setting.steps = true ∧
      p.setting.path = Yaml.NodePath.display p.setting.steps.reverse) ∧
    w.toValue.places.Pairwise Schema.workflow.Precedes ∧
    (InDocumentOrder (w.problems.map (·.setting)) ↔ ¬w.training.ReportsProxyLate) ∧
    (w.training.ReportsProxyLate → ∃ before,
      w.problems = before ++ [.zeroWorkers, .missingProxy] ∧
        InDocumentOrder ((before ++ [.missingProxy, .zeroWorkers]).map (·.setting))) ∧
    ((∀ e, w.validate = .error e → w.NamesFirst e) ↔
      w.problems ≠ [.zeroWorkers, .missingProxy]) := by
  refine ⟨fun p _ => ?_, w.follows_toValue.pairwise, inDocumentOrder_iff,
    exists_of_reportsProxyLate, namesFirst_iff⟩
  exact ⟨p.setting.declares_steps, p.setting.display_steps.symm⟩

/-- Parallel training of no workers without a proxy: the workers are named first, though the
    proxy is declared before them. -/
theorem problems_not_inDocumentOrder_workers :
    let w : Workflow := {
      job := "job", scenarioPath := ⟨"a"⟩, logPath := ⟨"l"⟩
      training := { mode := .parallel, numWorkers := some 0 } }
    w.problems.map (·.setting.path) = ["training.num_workers", "training.proxy"] ∧
      ¬InDocumentOrder (w.problems.map (·.setting)) ∧
      ∃ e, w.validate = .error e ∧ ¬w.NamesFirst e := by
  intro w
  have hproblems : w.problems = [.zeroWorkers, .missingProxy] := by decide
  have hlate : w.training.ReportsProxyLate := ⟨rfl, rfl, rfl⟩
  refine ⟨?_, fun horder => inDocumentOrder_iff.mp horder hlate, ?_⟩
  · rw [hproblems]
    rfl
  · by_contra hnone
    refine namesFirst_iff.mp (fun e he => ?_) hproblems
    by_contra hfirst
    exact hnone ⟨e, he, hfirst⟩

end Workflow

end RunPlan
