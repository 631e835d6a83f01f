import RunPlan.Proofs.Prepare
import RunPlan.Proofs.Result

/-!
# Runs that are refused

The problems of a workflow are looked for after the log file has been opened, so that a run can
be refused and leave something behind. It is never more than the log file, which is empty when
it is new, and directories above it: no step that creates anything else is taken, and no message
is written.

A refusal is told from other failures by the report, which starts with what was attempted.

## Key results

- `run_isRefused`: what a run of `prepare` leaves behind when its workflow is refused
-/

namespace RunPlan

/-- Items in a row start with the first one. -/
private theorem exists_intercalate_cons (separator : List Char) (item : List Char)
    (items : List (List Char)) :
    ∃ rest, separator.intercalate (item :: items) = item ++ rest := by
  cases items with
  | nil => exact ⟨[], by simp [List.intercalate]⟩
  | cons next items =>
    exact ⟨separator ++ separator.intercalate (next :: items), by simp [List.intercalate]⟩

namespace Command

open FileSystem

variable {host : Host} {here l : Location} {fs fs' : FileSystem} {w run : Workflow}
  {file base : Path} {name : String} {f : Failure} {p q : Progress} {step : Step}
  {steps : List Step}

/-! ## Reports -/

/-- The report of a failure starts with what was attempted. -/
private theorem exists_toList_render (f : Failure) :
    ∃ rest, f.render.toList = "Error: ".toList ++ (f.attempt.toList ++ rest) := by
  unfold Failure.render
  simp only [String.toList_append, Text.join, String.toList_intercalate, List.map_cons]
  obtain ⟨rest, hrest⟩ := exists_intercalate_cons "\n".toList f.attempt.toList _
  rw [hrest, List.append_assoc, List.append_assoc]
  exact ⟨_, rfl⟩

/-- A failure that is no refusal, as its first letter tells. -/
def IsOtherFailure (f : Failure) : Prop :=
  f.attempt.toList.head?.any (· ≠ 'I') = true

/-- The first part of what was attempted may tell it. -/
theorem isOtherFailure_of_append {text rest : String} (hf : f.attempt = text ++ rest)
    (h : text.toList.head?.any (· ≠ 'I') = true) : IsOtherFailure f := by
  unfold IsOtherFailure
  rw [hf, String.toList_append, List.head?_append]
  cases htext : text.toList.head? with
  | none => simp [htext] at h
  | some c =>
    rw [htext] at h
    exact h

/-- Other failures are not reported as refusals are. -/
theorem IsOtherFailure.not_refusal (h : IsOtherFailure f) :
    ¬ "Error: Invalid workflow".toList <+: f.render.toList := by
  intro ⟨t, ht⟩
  obtain ⟨rest, hrest⟩ := exists_toList_render f
  have hrefusal : "Error: Invalid workflow".toList =
      "Error: ".toList ++ 'I' :: "nvalid workflow".toList := by decide
  rw [hrest, hrefusal, List.append_assoc] at ht
  have hhead := congrArg List.head? (List.append_cancel_left ht)
  unfold IsOtherFailure at h
  cases hattempt : f.attempt.toList.head? with
  | none => simp [hattempt] at h
  | some c =>
    rw [List.head?_append, List.head?_append, hattempt] at hhead
    obtain rfl : 'I' = c := Option.some.inj hhead
    simp [hattempt] at h

/-- No message starts as a failure is reported. -/
private theorem getElem?_name (level : LogLevel) :
    1 < level.name.toList.length ∧ level.name.toList[1]? ≠ some 'r' := by
  cases level <;> decide

/-- Where a refusal is reported first, there are no messages. -/
theorem refusal_of_renderLog {threshold : LogLevel} {log : List LogLine} {rest : String}
    (h : "Error: Invalid workflow".toList <+: (renderLog threshold log ++ rest).toList) :
    "Error: Invalid workflow".toList <+: rest.toList := by
  unfold renderLog at h
  cases hshown : log.filter fun line => threshold.shows line.level with
  | nil =>
    rw [hshown, String.toList_append] at h
    exact h
  | cons line lines =>
    -- a message starts with the name of its level, in capitals
    obtain ⟨hlength, hsecond⟩ := getElem?_name line.level
    rw [hshown, List.map_cons, String.join_cons, LogLine.render] at h
    simp only [String.toList_append, List.append_assoc] at h
    obtain ⟨t, ht⟩ := h
    have hletter : ("Error: Invalid workflow".toList ++ t)[1]? = some 'r' := by
      rw [List.getElem?_append_left (by decide)]
      decide
    rw [ht, List.getElem?_append_left hlength] at hletter
    exact absurd hletter hsecond

/-! ## Steps that come later -/

/-- The failures of a step are no refusals. -/
def FailsOtherwise (step : Step) : Prop :=
  ∀ p q f, step p = (q, some f) → IsOtherFailure f

/-- The failures of a run of steps are those of its steps. -/
theorem takeSteps_failsOtherwise (h : ∀ step ∈ steps, FailsOtherwise step) :
    FailsOtherwise (takeSteps steps) := by
  intro p q f hfails
  obtain ⟨step, hstep, m, m', hfails'⟩ := exists_step_of_failure hfails
  exact h step hstep m m' f hfails'

theorem failsOtherwise_inputStep (here : Location) (setting : String) (input : Path) :
    FailsOtherwise (inputStep here setting input) := by
  intro p q f h
  unfold inputStep at h
  split at h
  · cases h
  · cases h

theorem failsOtherwise_directoryStep (here : Location) (directory : Path) :
    FailsOtherwise (directoryStep here directory) := by
  intro p q f h
  unfold directoryStep at h
  split at h
  · simp only [Prod.mk.injEq, Option.some.injEq] at h
    rw [← h.2]
    exact isOtherFailure_of_append rfl (by decide)
  · cases h

theorem failsOtherwise_requiredDirStep (here : Location) (directory : Path) :
    FailsOtherwise (requiredDirStep here directory) := by
  apply takeSteps_failsOtherwise
  rw [List.forall_mem_cons, List.forall_mem_singleton]
  exact ⟨failsOtherwise_directoryStep here directory, nofun⟩

theorem failsOtherwise_envFileStep (here : Location) (envDirectory : Path) (c : Component)
    (env : Environment) : FailsOtherwise (envFileStep here envDirectory c env) := by
  intro p q f h
  unfold envFileStep at h
  dsimp only at h
  split at h
  · simp only [Prod.mk.injEq, Option.some.injEq] at h
    rw [← h.2]
    exact isOtherFailure_of_append rfl (by decide)
  · cases h

/-- A workflow that is not accepted has a problem, and nothing has been done. -/
theorem problems_ne_of_acceptStep (h : acceptStep w p = (q, some f)) : w.problems ≠ [] ∧ q = p := by
  unfold acceptStep Workflow.validate at h
  cases hproblems : w.problems with
  | nil => simp [hproblems] at h
  | cons problem problems =>
    simp only [hproblems, Prod.mk.injEq] at h
    exact ⟨nofun, h.1.symm⟩

/-- Workflows are accepted first, and no later step refuses them. -/
theorem exists_laterSteps (here : Location) (w run : Workflow) (directory envDirectory : Path) :
    ∃ steps, prepareSteps here w run directory envDirectory = acceptStep w :: steps ∧
      ∀ step ∈ steps, FailsOtherwise step := by
  refine ⟨[announceStep run directory, inputStep here "scenario_path" run.scenarioPath] ++
    (run.training.loadPath.map (inputStep here "training.load_path")).toList ++
    run.requiredDirs.map (requiredDirStep here) ++ [directoryStep here envDirectory] ++
    (run.envByComponent.map fun ce => envFileStep here envDirectory ce.1 ce.2) ++
    [finishStep run envDirectory], rfl, ?_⟩
  have hload : ∀ step ∈ (run.training.loadPath.map (inputStep here "training.load_path")).toList,
      FailsOtherwise step := by
    intro step hstep
    obtain ⟨path, -, rfl⟩ := Option.map_eq_some_iff.mp (Option.mem_toList.mp hstep)
    exact failsOtherwise_inputStep here _ path
  have hannounce : FailsOtherwise (announceStep run directory) := by
    intro p q f h
    cases h
  have hfinish : FailsOtherwise (finishStep run envDirectory) := by
    intro p q f h
    cases h
  simp only [List.forall_mem_append, List.forall_mem_cons, List.forall_mem_map, hannounce,
    hfinish, failsOtherwise_inputStep, failsOtherwise_requiredDirStep,
    failsOtherwise_directoryStep, failsOtherwise_envFileStep, implies_true, and_true, true_and,
    List.not_mem_nil, false_implies]
  exact hload

/-! ## Failures before the steps -/

/-- A log file that cannot be opened is reported otherwise. -/
theorem isOtherFailure_of_openLog {path : Path} (h : openLog fs here path = (fs', .error f)) :
    IsOtherFailure f := by
  unfold openLog at h
  split at h
  · simp only [Prod.mk.injEq, Except.error.injEq] at h
    rw [← h.2]
    exact isOtherFailure_of_append (String.append_assoc ..) (by decide)
  · dsimp only at h
    split at h
    · simp only [Prod.mk.injEq, Except.error.injEq] at h
      rw [← h.2]
      exact isOtherFailure_of_append rfl (by decide)
    · split at h
      · cases h
      · simp only [Prod.mk.injEq, Except.error.injEq] at h
        rw [← h.2]
        exact isOtherFailure_of_append rfl (by decide)

/-- A workflow that is not found is reported otherwise. -/
theorem isOtherFailure_of_file {s : Selection} (h : s.file host = .error f) : IsOtherFailure f := by
  unfold Selection.file at h
  split at h
  · cases h
  · cases h
    exact isOtherFailure_of_append (String.append_empty).symm (by decide)

theorem attempt_ofWorkflowError (attempt : String) (e : WorkflowError) :
    (Failure.ofWorkflowError attempt e).attempt = attempt := by
  cases e <;> rfl

/-- A workflow that cannot be read is reported otherwise. -/
theorem isOtherFailure_of_read {s : Selection} {path : Path} (h : s.read host path = .error f) :
    IsOtherFailure f := by
  unfold Selection.read at h
  cases hread : Workflow.readLayered host.files host.here path (s.environment host) with
  | ok w => simp [hread, Except.mapError] at h
  | error e =>
    simp only [hread, Except.mapError, Except.error.injEq] at h
    rw [← h]
    exact isOtherFailure_of_append (attempt_ofWorkflowError _ e) (by decide)

/-! ## Refused runs -/

/-- What a refused run leaves behind, its log file being at `logPath`. -/
structure IsRefused (here : Location) (logPath : Path) (fs : FileSystem) (o : Outcome) : Prop where
  code : o.code = 1
  stdout : o.stdout = ""
  /-- Whatever was there is there, as it was. -/
  kept : KeepsEntries fs o.files
  /-- What is new is the log file, which is empty, or a directory above it. -/
  added {l : Location} {e : Entry} (h : fs.at? l = none) (h' : o.files.at? l = some e) :
    (e = .text "" ∧ ∃ directory name, logPath.parent = some directory ∧
      logPath.fileName = some name ∧ o.files.location? here (directory.child name) = some l) ∨
    (e = .directory ∧ ∃ q, logPath.IsAncestor q ∧ o.files.location? here q = some l)

/-- Nothing changes when there are no messages for the log file. -/
theorem at?_of_appendNothing {e : Entry} (htarget : fs.resolve here file = .ok (fs.target l))
    (hentry : fs.at? l = some e) (he : e ≠ .directory)
    (h : (fs.appendText here file "").toOption.getD fs = fs') (m : Location) :
    fs'.at? m = fs.at? m := by
  obtain ⟨⟨e', -, hentry', hsame⟩, hothers⟩ := at?_of_appendText_log htarget hentry he h
  by_cases hm : m = l
  · rw [hm, hentry', hsame rfl, hentry]
  · exact hothers m hm

/-- A run that is refused in a directory has opened the log file and done nothing else. -/
theorem exists_of_refusal {verbose : Bool} {envDirectory : Option Path}
    (hrun : w.resolvePaths base = run)
    (h : "Error: Invalid workflow".toList <+:
      (prepareIn host verbose w base envDirectory).stderr.toList) :
    w.problems ≠ [] ∧ (prepareIn host verbose w base envDirectory).code = 1 ∧
      (prepareIn host verbose w base envDirectory).stdout = "" ∧
      ∃ opened logFile, openLog host.files host.here run.logPath = (opened, .ok logFile) ∧
        (opened.appendText host.here logFile "").toOption.getD opened =
          (prepareIn host verbose w base envDirectory).files := by
  unfold prepareIn at h ⊢
  rw [hrun] at h ⊢
  cases hopen : openLog host.files host.here run.logPath with
  | mk opened result =>
    cases result with
    | error f =>
      simp only [hopen, Outcome.failure, String.empty_append] at h
      exact absurd h (isOtherFailure_of_openLog hopen).not_refusal
    | ok logFile =>
      simp only [hopen] at h ⊢
      -- either the first step fails and no other is taken, or the report is not a refusal
      obtain ⟨steps, hsteps, hlater⟩ := exists_laterSteps host.here w run base
        (envDirectory.getD (defaultEnvDirectory run))
      rw [hsteps] at h ⊢
      cases haccept : acceptStep w ⟨opened, []⟩ with
      | mk m failed =>
        cases failed with
        | some f =>
          obtain ⟨hproblems, rfl⟩ := problems_ne_of_acceptStep haccept
          rw [takeSteps_cons_failure haccept]
          exact ⟨hproblems, rfl, rfl, opened, logFile, rfl, rfl⟩
        | none =>
          rw [takeSteps_cons haccept] at h
          cases htake : takeSteps steps m with
          | mk done failed =>
            rw [htake] at h
            cases failed with
            | some f =>
              -- a step that comes later has failed
              have hother := takeSteps_failsOtherwise hlater m done f htake
              exact absurd (refusal_of_renderLog h) hother.not_refusal
            | none =>
              -- messages alone are no report
              simp only [Outcome.success] at h
              rw [← String.append_empty (s := renderLog _ _)] at h
              exact absurd (refusal_of_renderLog h) (by decide)

/-- What a run of `prepare` leaves behind when its workflow is refused. -/
theorem isRefused_of_prepareIn {verbose : Bool} {envDirectory : Option Path}
    (h : "Error: Invalid workflow".toList <+:
      (prepareIn host verbose w base envDirectory).stderr.toList) :
    w.problems ≠ [] ∧ IsRefused host.here (w.resolvePaths base).logPath host.files
      (prepareIn host verbose w base envDirectory) := by
  generalize hrun : w.resolvePaths base = run
  obtain ⟨hproblems, hcode, hstdout, opened, logFile, hopen, hfiles⟩ := exists_of_refusal hrun h
  generalize prepareIn host verbose w base envDirectory = o at hcode hstdout hfiles
  obtain ⟨directory, name, l, hlog⟩ := exists_opensLog hopen
  obtain ⟨e, he, hentry, hnew⟩ := hlog.entry
  -- the log is empty, so that closing it changes nothing
  have hsame := at?_of_appendNothing (hlog.resolve_file (.refl opened)) hentry he hfiles
  have hkeeps : KeepsEntries opened o.files := by
    intro m d hm
    rw [hsame m, hm]
  refine ⟨hproblems, hcode, hstdout, hlog.kept.trans hkeeps, fun {m d} hm hm' => ?_⟩
  rw [hsame m] at hm'
  cases hlog.added hm hm' with
  | inl hfile =>
    subst hfile
    left
    obtain rfl := Option.some.inj (hentry.symm.trans hm')
    have hname := (Path.isEntryName_of_fileName hlog.name_eq).1
    have hresolve := resolve_child hname (hkeeps.keepsDirectories.walk hlog.walk_parent)
    rw [target_eq_existing_iff.mpr ⟨rfl, hkeeps _ _ hentry⟩] at hresolve
    exact ⟨hnew hm, directory, name, hlog.parent_eq, hlog.name_eq, location?_eq_some hresolve⟩
  | inr hdirectory =>
    right
    obtain ⟨q, hq, hresolve⟩ := hdirectory
    have hm'' := at?_of_follow (walk_of_resolve hresolve)
    have hresolve' := hkeeps.keepsDirectories.resolve hresolve (hkeeps m _ hm'')
    exact ⟨Option.some.inj (hm'.symm.trans hm''), q, hq, location?_eq_some hresolve'⟩

/-- A run of `prepare` whose report starts as a refusal has read a workflow with a problem, and
    leaves nothing behind but the log file and the directories above it. -/
theorem run_isRefused {arguments : List String} {i : Invocation} {s : Selection}
    {base envDirectory : Option Path} (hread : Invocation.read arguments = .ok i)
    (hrequest : i.request = .prepare s base envDirectory)
    (hrefused : "Error: Invalid workflow".toList <+:
      (Command.run host arguments).stderr.toList) :
    ∃ p w, s.file host.withEnvFile = .ok p ∧ s.read host.withEnvFile p = .ok w ∧
      w.problems ≠ [] ∧
      IsRefused host.here (w.resolvePaths (base.getD host.directory)).logPath host.files
        (Command.run host arguments) := by
  rw [run_eq_prepare hread hrequest] at hrefused ⊢
  unfold prepare at hrefused ⊢
  cases hfile : s.file host.withEnvFile with
  | error f =>
    simp only [hfile, Outcome.failure, String.empty_append] at hrefused
    exact absurd hrefused (isOtherFailure_of_file hfile).not_refusal
  | ok p =>
    cases hw : s.read host.withEnvFile p with
    | error f =>
      simp only [hfile, hw, Outcome.failure, String.empty_append] at hrefused
      exact absurd hrefused (isOtherFailure_of_read hw).not_refusal
    | ok w =>
      simp only [hfile, hw, Host.withEnvFile_directory] at hrefused ⊢
      have hleft := isRefused_of_prepareIn hrefused
      rw [Host.withEnvFile_here, Host.withEnvFile_files] at hleft
      exact ⟨p, w, rfl, hw, hleft⟩

/-- A run without episodes is refused, and its log file is new then. -/
theorem run_isRefused_zero :
    let text := "job: j\nscenario_path: s\nlog_path: log/l\nmain:\n  num_episodes: 0\n"
    let host : Host := ⟨⟨[(["w.yml"], .text text)]⟩, ⟨"/"⟩, []⟩
    let s : Selection := ⟨some ⟨"w.yml"⟩, true⟩
    Invocation.read ["prepare", "w.yml"] = .ok ⟨.prepare s none none, false⟩ ∧
      "Error: Invalid workflow".toList <+:
        (Command.run host ["prepare", "w.yml"]).stderr.toList ∧
      ∃ p w, s.file host.withEnvFile = .ok p ∧ s.read host.withEnvFile p = .ok w ∧
        w.problems ≠ [] ∧
        IsRefused host.here (w.resolvePaths host.directory).logPath host.files
          (Command.run host ["prepare", "w.yml"]) := by
  intro text host s
  have hread : Invocation.read ["prepare", "w.yml"] = .ok ⟨.prepare s none none, false⟩ :=
    eq_ok_of_toOption (by decide +kernel)
  have hrefused : "Error: Invalid workflow".toList <+:
      (Command.run host ["prepare", "w.yml"]).stderr.toList := by decide +kernel
  exact ⟨hread, hrefused, run_isRefused hread rfl hrefused⟩

end Command

end RunPlan
