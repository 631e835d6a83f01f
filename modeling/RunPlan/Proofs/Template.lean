import RunPlan.Command.Create
import RunPlan.Proofs.Load
import RunPlan.Proofs.Text
import RunPlan.Proofs.Validity
import RunPlan.Proofs.Yaml.Document

/-!
# The template of a workflow is read as a workflow

`Template.forJob` puts the name of a job in three places of a document. As a text it is the
template of the default job with that name replaced (`replaceAll_forJob`); as a document it
is a list of entries with comments between them (`toList_forJob_entries`), of which three
depend on the name.

The two paths that hold the name are texts whatever the name is. Where the name stands
alone, it is read like any plain scalar, so that it may be null, a number that has no value,
or the start of a sequence.

## Key results

- `replaceAll_forJob`: the template is made by replacing the default job's name
- `readNode_forJob`: the template is read, if the name has a value
- `ofText_forJob_eq_ok_iff`: the workflow of the template, and for which names there is one
-/

namespace RunPlan

open Text Yaml

namespace Template

/-! ## The text of the template -/

/-- The text before the job. -/
def beforeJob : List Char :=
  unlines (((lines "").take 3).map String.toList) ++ "job: ".toList

/-- The text from the job to its name in the path of the log. -/
def beforeLog : List Char :=
  '\n' :: (unlines ((((lines "").drop 4).take 1).map String.toList) ++ "log_path: log/".toList)

/-- The text from there to the job's name in the path of checkpoints. -/
def beforeCheckpoint : List Char :=
  ".txt".toList ++ '\n' :: (unlines ((((lines "").drop 6).take 31).map String.toList) ++
    "    path: checkpoint/".toList)

/-- The rest of the text. -/
def afterCheckpoint : List Char :=
  '\n' :: unlines (((lines "").drop 38).map String.toList)

/-- Around its names the template is printable, and the name of the default job does not start
    there. -/
theorem pieces_spec : ∀ piece ∈ [beforeJob, beforeLog, beforeCheckpoint, afterCheckpoint],
    startsWithin defaultJob.toList piece = false ∧ ∀ c ∈ piece, isPrintable c = true := by
  have hpieces : ∀ piece ∈ [beforeJob, beforeLog, beforeCheckpoint, afterCheckpoint],
      (!startsWithin defaultJob.toList piece && piece.all isPrintable) = true := by
    decide +kernel
  intro piece hpiece
  simpa using hpieces piece hpiece

/-- The text around a name. -/
def filled (name : List Char) : List Char :=
  beforeJob ++ (name ++ (beforeLog ++ (name ++ (beforeCheckpoint ++ (name ++ afterCheckpoint)))))

/-- The name of the job stands in three places. -/
theorem toList_forJob (job : String) : (forJob job).toList = filled job.toList := by
  have hlines : (lines job).map String.toList =
      ((lines "").take 3).map String.toList ++
        (("job: ".toList ++ job.toList) :: (((lines "").drop 4).take 1).map String.toList) ++
        (("log_path: log/".toList ++ (job.toList ++ ".txt".toList)) ::
          (((lines "").drop 6).take 31).map String.toList) ++
        (("    path: checkpoint/".toList ++ job.toList) ::
          ((lines "").drop 38).map String.toList) := by
    simp only [lines, trainingLines, List.map_append, List.map_cons, List.map_drop,
      List.map_take, String.toList_append, List.append_assoc]
    rfl
  rw [forJob, String.toList_ofList, hlines]
  simp only [unlines, filled, beforeJob, beforeLog, beforeCheckpoint, afterCheckpoint,
    List.flatMap_append, List.flatMap_cons, List.append_assoc, List.cons_append,
    List.nil_append]

/-- The template of a job is that of the default job with its name replaced. -/
theorem replaceAll_forJob (job : String) :
    replaceAll defaultJob job (forJob defaultJob) = forJob job := by
  have hword : defaultJob.toList ≠ [] := by decide
  have hpieces := pieces_spec
  simp only [List.forall_mem_cons] at hpieces
  obtain ⟨⟨hjob, -⟩, ⟨hlog, -⟩, ⟨hcheckpoint, -⟩, ⟨hafter, -⟩, -⟩ := hpieces
  rw [replaceAll, toList_forJob, ← String.toList_inj, String.toList_ofList, toList_forJob]
  simp only [filled, replaceFrom_append hword hjob, replaceFrom_append hword hlog,
    replaceFrom_append hword hcheckpoint, replaceFrom_eq_self hafter]

/-- The template is printable when the name is. -/
theorem isPrintable_forJob {job : String} (h : ∀ c ∈ job.toList, isPrintable c = true) :
    ∀ c ∈ (forJob job).toList, isPrintable c = true := by
  have hpieces := pieces_spec
  simp only [List.forall_mem_cons] at hpieces
  obtain ⟨⟨-, hjob⟩, ⟨-, hlog⟩, ⟨-, hcheckpoint⟩, ⟨-, hafter⟩, -⟩ := hpieces
  rw [toList_forJob, filled]
  simp only [List.forall_mem_append]
  exact ⟨hjob, h, hlog, h, hcheckpoint, h, hafter⟩

/-! ## The entries of the template -/

/-- A `logging` section of the template. -/
def loggingEntry (column : Nat) (voids : List String) : BlockEntry :=
  .ofMapping "logging" column [] [.ofScalar "stdout" "INFO" [], .ofScalar "file" "DEBUG" voids]

/-- The `main` section of the template. -/
def mainEntry : BlockEntry :=
  .ofMapping "main" 0 [] [
    .ofScalar "num_episodes" "30" ((mainLines.drop 2).take 1),
    .ofScalar "num_steps" "null" ((mainLines.drop 4).take 1),
    .ofScalar "eval_schedule" "5" [],
    loggingEntry 2 [""]]

/-- The `rollout` section of the template. -/
def rolloutEntry : BlockEntry :=
  .ofMapping "rollout" 0 ((rolloutLines.drop 1).take 9) [loggingEntry 2 [""]]

/-- The section `training.checkpointing` of the template. -/
def checkpointingEntry (job : String) : BlockEntry :=
  .ofMapping "checkpointing" 2 [] [
    .ofScalar "path" ("checkpoint/" ++ job) [],
    .ofScalar "interval" "5" (((trainingLines "").drop 8).take 6)]

/-- The `training` section of the template. -/
def trainingEntry (job : String) : BlockEntry :=
  .ofMapping "training" 0 (((trainingLines "").drop 1).take 1) [
    .ofScalar "mode" "simple" [],
    .ofScalar "load_path" "null" [],
    .ofScalar "load_episode" "null" [],
    checkpointingEntry job,
    loggingEntry 2 []]

/-- The entries of the template after the job. -/
def otherEntries (job : String) : List BlockEntry := [
  .ofScalar "scenario_path" "scenarios/cim/rl" [],
  .ofScalar "log_path" ("log/" ++ job ++ ".txt") [""],
  mainEntry,
  rolloutEntry,
  trainingEntry job]

/-- The entries of the template. -/
def entries (job : String) : List BlockEntry :=
  .ofScalar "job" job [] :: otherEntries job

/-- The comments above the entries. -/
def titleLines : List String :=
  (lines "").take 3

/-- The template is its title and its entries. -/
theorem toList_forJob_entries (job : String) : (forJob job).toList =
    unlines (titleLines.map String.toList) ++
      (entries job).flatMap fun e => pad 0 ++ e.chars := by
  simp only [entries, otherEntries, mainEntry, rolloutEntry, trainingEntry, checkpointingEntry,
    loggingEntry, List.flatMap_cons, List.flatMap_nil, BlockEntry.chars_ofScalar,
    BlockEntry.chars_ofMapping, Nat.zero_add, Nat.reduceAdd, List.append_nil]
  simp only [unlines, ← List.flatMap_append]
  rw [forJob, String.toList_ofList, unlines]
  -- both sides are the same lines
  congr 1
  simp only [titleLines, lines, trainingLines, List.map_append, List.map_cons, List.map_drop,
    List.map_take, String.toList_append, List.append_assoc]
  rfl

/-- The names of the entries are different. -/
theorem nodup_entries (job : String) : ((entries job).map BlockEntry.name).Nodup := by
  show ["job", "scenario_path", "log_path", "main", "rollout", "training"].Nodup
  decide

/-! ## The entries are read -/

/-- Whether a word after a name, and void lines, are an entry of any mapping. -/
def isWordEntry (name text : String) (voids : List String) : Bool :=
  isFieldName name && !text.toList.isEmpty && text.toList != ['-'] &&
    text.toList.all isWordChar && (plainValue text).isSome && voids.all (isVoidLine ·.toList)

/-- A word is an entry. -/
theorem isEntry_word {name text : String} {voids : List String}
    (h : isWordEntry name text voids = true) (column : Nat) :
    (BlockEntry.ofScalar name text voids).IsEntry column := by
  simp only [isWordEntry, Bool.and_eq_true, Bool.not_eq_true', List.isEmpty_eq_false_iff,
    bne_iff_ne] at h
  obtain ⟨⟨⟨⟨⟨hname, hne⟩, hdash⟩, hword⟩, hvalue⟩, hvoids⟩ := h
  have hplain := IsPlainScalar.of_word hne hdash (List.all_eq_true.mp hword)
  exact BlockEntry.isEntry_ofScalar hname hplain hvalue hvoids column

/-- The characters of job names are those of words. -/
theorem isWordChar_of_isJobNameChar {c : Char} (h : isJobNameChar c = true) :
    isWordChar c = true := by
  simp only [isJobNameChar, isWordChar, Bool.or_eq_true] at h ⊢
  tauto

variable {job : String}

/-- Characters of words and of paths. -/
def isPathChar (c : Char) : Bool :=
  isWordChar c || c == '/'

/-- Words with slashes between them are an entry. -/
theorem isEntry_path {name text : String} {voids : List String}
    (hname : isFieldName name = true) (hletter : text.toList.head?.any isLetter = true)
    (hslash : '/' ∈ text.toList) (hchars : text.toList.all isPathChar = true)
    (hvoids : voids.all (isVoidLine ·.toList) = true) (column : Nat) :
    (BlockEntry.ofScalar name text voids).IsEntry column := by
  obtain ⟨v, hvalue, -⟩ := exists_plainValue_of_slash hletter hslash
  have hinert : ∀ c ∈ text.toList, IsInert c := by
    intro c hc
    have hchar := List.all_eq_true.mp hchars c hc
    rw [isPathChar, Bool.or_eq_true, beq_iff_eq] at hchar
    cases hchar with
    | inl hword => exact wordChar_spec hword
    | inr hseparator =>
      rw [hseparator, IsInert]
      decide
  have hplain : IsPlainScalar text.toList := by
    refine .of_inert (List.ne_nil_of_mem hslash) ?_ hinert
    intro hdash
    rw [hdash] at hslash
    simp at hslash
  exact BlockEntry.isEntry_ofScalar hname hplain (by rw [hvalue]; rfl) hvoids column

/-- A name within a path. -/
private theorem all_isPathChar {before after : String}
    (hjob : ∀ c ∈ job.toList, isJobNameChar c = true)
    (hbefore : before.toList.all isPathChar = true)
    (hafter : after.toList.all isPathChar = true) :
    (before ++ job ++ after).toList.all isPathChar = true := by
  have hname : job.toList.all isPathChar = true := by
    rw [List.all_eq_true]
    intro c hc
    rw [isPathChar, isWordChar_of_isJobNameChar (hjob c hc), Bool.true_or]
  rw [String.toList_append, String.toList_append, List.all_append, List.all_append, hbefore,
    hname, hafter]
  rfl

/-- The path of the log is an entry. -/
theorem isEntry_log (hjob : ∀ c ∈ job.toList, isJobNameChar c = true) :
    (BlockEntry.ofScalar "log_path" ("log/" ++ job ++ ".txt") [""]).IsEntry 0 := by
  apply isEntry_path
  · decide
  · rw [String.toList_append, String.toList_append]
    rfl
  · simp
  · exact all_isPathChar hjob (by decide) (by decide)
  · decide

/-- The path of checkpoints is an entry. -/
theorem isEntry_checkpoint (hjob : ∀ c ∈ job.toList, isJobNameChar c = true) :
    (BlockEntry.ofScalar "path" ("checkpoint/" ++ job) []).IsEntry 4 := by
  apply isEntry_path
  · decide
  · rw [String.toList_append]
    rfl
  · simp
  · rw [← String.append_empty (s := job), ← String.append_assoc]
    exact all_isPathChar hjob (by decide) (by decide)
  · decide

/-- A `logging` section is an entry. -/
theorem isEntry_loggingEntry {voids : List String}
    (h : isWordEntry "file" "DEBUG" voids = true) (column : Nat) :
    (loggingEntry column voids).IsEntry column := by
  have hentries : ∀ e ∈ [BlockEntry.ofScalar "stdout" "INFO" [], .ofScalar "file" "DEBUG" voids],
      e.IsEntry (column + 2) := by
    simp only [List.forall_mem_cons]
    exact ⟨isEntry_word (by decide) _, isEntry_word h _, List.forall_mem_nil _⟩
  exact BlockEntry.isEntry_ofMapping (by decide) (List.cons_ne_nil _ _) hentries
    (show ["stdout", "file"].Nodup by decide) (by decide)

/-- The `main` section is an entry. -/
theorem isEntry_mainEntry : mainEntry.IsEntry 0 := by
  apply BlockEntry.isEntry_ofMapping (by decide) (List.cons_ne_nil _ _) ?_ (by decide) (by decide)
  simp only [List.forall_mem_cons]
  exact ⟨isEntry_word (by decide) _, isEntry_word (by decide) _, isEntry_word (by decide) _,
    isEntry_loggingEntry (by decide) _, List.forall_mem_nil _⟩

/-- The `rollout` section is an entry. -/
theorem isEntry_rolloutEntry : rolloutEntry.IsEntry 0 := by
  apply BlockEntry.isEntry_ofMapping (by decide) (List.cons_ne_nil _ _) ?_ (by decide) (by decide)
  exact List.forall_mem_singleton.mpr (isEntry_loggingEntry (by decide) _)

/-- The `training` section is an entry. -/
theorem isEntry_trainingEntry (hjob : ∀ c ∈ job.toList, isJobNameChar c = true) :
    (trainingEntry job).IsEntry 0 := by
  have hcheckpointing : (checkpointingEntry job).IsEntry 2 := by
    apply BlockEntry.isEntry_ofMapping (by decide) (List.cons_ne_nil _ _) ?_ ?_ (by decide)
    · simp only [List.forall_mem_cons]
      exact ⟨isEntry_checkpoint hjob, isEntry_word (by decide) _, List.forall_mem_nil _⟩
    · show ["path", "interval"].Nodup
      decide
  apply BlockEntry.isEntry_ofMapping (by decide) (List.cons_ne_nil _ _) ?_ ?_ (by decide)
  · simp only [List.forall_mem_cons]
    exact ⟨isEntry_word (by decide) _, isEntry_word (by decide) _, isEntry_word (by decide) _,
      hcheckpointing, isEntry_loggingEntry (by decide) _, List.forall_mem_nil _⟩
  · show ["mode", "load_path", "load_episode", "checkpointing", "logging"].Nodup
    decide

/-- All entries are read when the job is. -/
theorem isEntry_of_mem_entries (hjob : ∀ c ∈ job.toList, isJobNameChar c = true)
    (hplain : IsPlainScalar job.toList) (hvalue : (plainValue job).isSome = true) :
    ∀ e ∈ entries job, e.IsEntry 0 := by
  simp only [entries, otherEntries, List.forall_mem_cons]
  refine ⟨?_, ?_, isEntry_log hjob, isEntry_mainEntry, isEntry_rolloutEntry,
    isEntry_trainingEntry hjob, List.forall_mem_nil _⟩
  · exact BlockEntry.isEntry_ofScalar (by decide) hplain hvalue rfl 0
  · exact isEntry_path (by decide) (by decide) (by decide) (by decide) rfl 0

/-! ## The workflow of the template -/

/-- The nodes of the template. -/
def node (job : String) : Node :=
  .mapping none ((entries job).map BlockEntry.nodes)

/-- The values of the template. -/
def fields (job : String) : List (Value × Value) :=
  (entries job).map fun e => (.string e.name, e.node.toValue.getD .null)

/-- The workflow of the template. -/
def workflow (job : String) : Workflow where
  job := job
  scenarioPath := ⟨"scenarios/cim/rl"⟩
  logPath := ⟨"log/" ++ job ++ ".txt"⟩
  main := {
    numEpisodes := some 30
    evalSchedule := some (.interval 5)
    logging := ⟨.info, .debug⟩ }
  rollout := { logging := ⟨.info, .debug⟩ }
  training := {
    checkpointing := some ⟨⟨"checkpoint/" ++ job⟩, 5⟩
    logging := ⟨.info, .debug⟩ }

/-- The template is read, if the name of the job is a plain scalar with a value. -/
theorem readNode_forJob (hjob : ∀ c ∈ job.toList, isJobNameChar c = true)
    (hplain : IsPlainScalar job.toList) (hvalue : (plainValue job).isSome = true) :
    readNode (forJob job) = .ok (node job, .mapping (fields job)) := by
  have hentries := isEntry_of_mem_entries hjob hplain hvalue
  have hvoids : ∀ line ∈ titleLines.map String.toList, isVoidLine line = true := by decide
  have hread : readDocument strictDialect (forJob job) = .ok (some (node job)) :=
    readDocument_entries (List.cons_ne_nil _ _) (fun e he => (hentries e he).toReads)
      (BlockEntry.pairwise_differ hentries (nodup_entries job)) hvoids
      (isPrintable_forJob hplain.printable)
      (toList_forJob_entries job)
  -- neither the depth nor the aliases depend on the name, which is a leaf
  have hdepth : (node job).depth = 3 := rfl
  have hspend (budget : Nat) : (node job).spend budget = some budget := rfl
  have htoValue : (node job).toValue = some (.mapping (fields job)) := by
    rw [node, Node.toValue, BlockEntry.entryValues_nodes hentries]
    rfl
  rw [readNode, hread]
  simp [bind, Except.bind, hdepth, maxDepth, hspend, htoValue, orMalformed]

/-- Of the required fields only the job can be null. -/
theorem checkRequired_fields {v : Value} (hvalue : plainValue job = some v) :
    checkRequired (.mapping (fields job)) =
      if v.isNull then .error (.missingField "job") else .ok () := by
  have hjob : isMissing (fields job) "job" = v.isNull := by
    show ((Node.ofPlain job).toValue.getD .null).isNull = v.isNull
    rw [toValue_ofPlain, hvalue]
    rfl
  have hscenario : isMissing (fields job) "scenario_path" = false := by
    show ((Node.ofPlain "scenarios/cim/rl").toValue.getD .null).isNull = false
    decide
  have hlog : isMissing (fields job) "log_path" = false := by
    have hletter : ("log/" ++ job ++ ".txt").toList.head?.any isLetter = true := by
      rw [String.toList_append, String.toList_append]
      rfl
    obtain ⟨w, hw, hnull⟩ := exists_plainValue_of_slash hletter (by simp)
    show ((Node.ofPlain ("log/" ++ job ++ ".txt")).toValue.getD .null).isNull = false
    rw [toValue_ofPlain, hw]
    cases w <;> simp_all [Value.isNull]
  rw [checkRequired, requiredFields]
  simp only [List.find?_cons, hjob, hscenario, hlog]
  cases v.isNull <;> rfl

/-- The workflow of the template has no problems when its job has none. -/
theorem problems_workflow (hjob : checkJobName job = none) : (workflow job).problems = [] := by
  obtain ⟨-, hlength, -⟩ := checkJobName_eq_none_iff.mp hjob
  rw [maxJobNameLength] at hlength
  have hscenario : checkPath ⟨"scenarios/cim/rl"⟩ = none := by decide
  have hlog : checkPath ⟨"log/" ++ job ++ ".txt"⟩ = none := by
    have hsize : ("log/" ++ job ++ ".txt").utf8ByteSize = 4 + job.utf8ByteSize + 4 := by
      rw [String.utf8ByteSize_append, String.utf8ByteSize_append]
      rfl
    rw [checkPath_iff, Path.isValid_iff, hsize]
    omega
  have hcheckpoint : checkPath ⟨"checkpoint/" ++ job⟩ = none := by
    have hsize : ("checkpoint/" ++ job).utf8ByteSize = 11 + job.utf8ByteSize := by
      rw [String.utf8ByteSize_append]
      rfl
    rw [checkPath_iff, Path.isValid_iff, hsize]
    omega
  have hcheckpointing : Checkpointing.problems ⟨⟨"checkpoint/" ++ job⟩, 5⟩ = [] := by
    rw [Checkpointing.problems, hcheckpoint]
    rfl
  have hsection : ∀ c ∈ (workflow job).training.checkpointing, c.problems = [] := by
    intro c hc
    rw [← Option.some.inj hc, hcheckpointing]
  have htraining : (workflow job).training.problems (some 30) = [] := by
    refine TrainingSection.problems_eq_nil_iff.mpr ⟨?_, rfl, hsection, ?_, ?_, rfl⟩
    all_goals simp [workflow]
  have hparallelism : ∀ p ∈ (workflow job).rollout.parallelism, p.problems = [] := by
    simp [workflow]
  exact Workflow.problems_eq_nil_iff.mpr ⟨hjob, hscenario, hlog, rfl, hparallelism, htraining⟩

/-- A name is a plain scalar unless it is a dash. -/
theorem isPlainScalar_of_isJobNameChar (hne : job ≠ "") (hdash : job ≠ "-")
    (hjob : ∀ c ∈ job.toList, isJobNameChar c = true) : IsPlainScalar job.toList :=
  .of_word (by simpa using hne) (by rwa [Ne, ← String.toList_inj] at hdash)
    fun c hc => isWordChar_of_isJobNameChar (hjob c hc)

/-- The template of a plain scalar with a value is the workflow of that job, unless the value
    is null. -/
theorem ofText_forJob_of_plainValue {v : Value} {w : Workflow} (hjob : checkJobName job = none)
    (hdash : job ≠ "-") (hvalue : plainValue job = some v) :
    Workflow.ofText (forJob job) = .ok w ↔ v.isNull = false ∧ w = workflow job := by
  obtain ⟨hne, -, hchars⟩ := checkJobName_eq_none_iff.mp hjob
  have hplain := isPlainScalar_of_isJobNameChar hne hdash hchars
  have hread := readNode_forJob hchars hplain (by rw [hvalue]; rfl)
  have hcheck : checkRequired (.mapping (fields job)) = .ok () ↔ v.isNull = false := by
    rw [checkRequired_fields hvalue]
    cases v.isNull <;> simp
  -- fields that hold a text take a plain scalar as it is written
  have hdecode : Workflow.decode (node job) = .ok w ↔ w = workflow job := by
    show Except.ok (workflow job) = .ok w ↔ _
    rw [Except.ok.injEq, eq_comm]
  rw [Workflow.ofText_eq_ok_iff hread, hcheck, hdecode]
  constructor
  · intro ⟨hnull, hw, _⟩
    exact ⟨hnull, hw⟩
  · intro ⟨hnull, hw⟩
    exact ⟨hnull, hw, hw ▸ problems_workflow hjob⟩

/-- The template is unreadable when the name of the job is. -/
theorem ofText_forJob_of_malformed (hjob : ∀ c ∈ job.toList, isJobNameChar c = true)
    (hmalformed : ∀ {c : Cursor} {column : Nat},
      c.At column false (' ' :: (job.toList ++ '\n' :: (unlines [] ++ (pad 0 ++
        (otherEntries job).flatMap fun e => pad 0 ++ e.chars)))) → 0 < column →
      ∀ fuel path, blockNode strictDialect (fuel + 2) path 0 true c = .error .malformed) :
    Workflow.ofText (forJob job) = .error (.document .unreadable) := by
  have hprintable : ∀ c ∈ job.toList, isPrintable c = true := fun c hc =>
    (wordChar_spec (isWordChar_of_isJobNameChar (hjob c hc))).1
  have hread : readDocument strictDialect (forJob job) = .error .malformed := by
    have hname : IsFieldName "job" := isFieldName_spec (by decide)
    have hvoids : ∀ line ∈ titleLines.map String.toList, isVoidLine line = true := by decide
    apply readDocument_malformed hname hvoids rfl hmalformed (isPrintable_forJob hprintable)
    rw [toList_forJob_entries]
    simp [entries, BlockEntry.chars, BlockEntry.ofScalar, unlines, pad]
  rw [Workflow.ofText, readNode, hread]
  rfl

/-- An integer without a value is unreadable. -/
theorem ofText_forJob_eq_error (hjob : checkJobName job = none) (hdash : job ≠ "-")
    (hvalue : plainValue job = none) :
    Workflow.ofText (forJob job) = .error (.document .unreadable) := by
  obtain ⟨hne, -, hchars⟩ := checkJobName_eq_none_iff.mp hjob
  have hplain := isPlainScalar_of_isJobNameChar hne hdash hchars
  apply ofText_forJob_of_malformed hchars
  intro c column hc hcolumn fuel path
  have hothers : StartsToken ((otherEntries job).flatMap fun e => pad 0 ++ e.chars) :=
    .cons (by decide) _
  exact hplain.blockNode_malformed hvalue forall_isVoidLine_nil hc (by omega) (by omega) hothers

/-- A dash is unreadable: it opens a sequence. -/
theorem ofText_forJob_dash : Workflow.ofText (forJob "-") = .error (.document .unreadable) := by
  have hjob : "-".toList.all isJobNameChar = true := by decide
  apply ofText_forJob_of_malformed (List.all_eq_true.mp hjob)
  intro c column hc hcolumn fuel path
  exact blockNode_dash_malformed hc (by omega)

/-- Whether the name of a job is a text in the template: not a dash, which opens a sequence,
    not null, and not an integer of more than 64 bits, which has no value. -/
structure IsUsable (job : String) : Prop where
  dash : job ≠ "-"
  null : isNullText job = false
  integer : wideInt? job.toList = none

/-- The template is a workflow exactly when the name is usable. -/
theorem ofText_forJob_eq_ok_iff {w : Workflow} (hjob : checkJobName job = none) :
    Workflow.ofText (forJob job) = .ok w ↔ IsUsable job ∧ w = workflow job := by
  by_cases hdash : job = "-"
  -- the only name that is no plain scalar
  · subst hdash
    rw [ofText_forJob_dash]
    exact ⟨nofun, fun h => absurd rfl h.1.dash⟩
  cases hvalue : plainValue job with
  | none =>
    rw [ofText_forJob_eq_error hjob hdash hvalue]
    rw [plainValue_eq_none_iff] at hvalue
    constructor
    · nofun
    · intro ⟨h, _⟩
      rw [h.integer] at hvalue
      cases hvalue
  | some v =>
    have hwide : wideInt? job.toList = none := by
      rw [← Option.not_isSome_iff_eq_none, ← plainValue_eq_none_iff, hvalue]
      exact Option.some_ne_none v
    have hnull : v.isNull = isNullText job := by
      have hne := (checkJobName_eq_none_iff.mp hjob).1
      have hiff := plainValue_eq_null_iff job
      rw [hvalue, or_iff_right hne] at hiff
      rw [← Bool.coe_iff_coe, ← hiff]
      cases v <;> simp [Value.isNull]
    rw [ofText_forJob_of_plainValue hjob hdash hvalue, hnull]
    constructor
    · intro ⟨htext, hw⟩
      exact ⟨⟨hdash, htext, hwide⟩, hw⟩
    · intro ⟨h, hw⟩
      exact ⟨h.null, hw⟩

end Template

end RunPlan
