import RunPlan.Proofs.Nearest
import RunPlan.Proofs.Shown

/-!
# What decoding keeps

The document of a workflow that was decoded from data holds what the data held. A `Reading`
says how the value of a field may differ from the one it is kept as: a scalar in a text
field becomes its text, `WARNING` becomes `WARN`, an integer in a field of numbers becomes
a nearest one. The readings of sections say besides that every key of the data is a field,
that nothing but fields is kept, and which default stands for a field that is absent.

## Key results

- `Shape.keeps_ofParts`: a section keeps what its parts keep
- `Workflow.reading_toValue`: decoding drops and invents nothing
-/

namespace RunPlan

open Yaml

/-! ## Readings -/

/-- How the value of a field is related to the one it is kept as. -/
def Reading : Type :=
  Value → Value → Prop

variable {α β : Type}

/-- What is kept under a name. An entry that is left out is the same as null. -/
def Value.entry (entries : List (String × Value)) (name : String) : Value :=
  (entries.lookup name).getD .null

@[simp] theorem Value.entry_nil (name : String) : entry [] name = .null :=
  rfl

@[simp] theorem Value.entry_cons (key name : String) (v : Value)
    (rows : List (String × Value)) :
    entry ((name, v) :: rows) key = if key = name then v else entry rows key := by
  rw [entry, Environment.lookup_cons_eq]
  split <;> rfl

@[simp] theorem Value.entry_entryIf_append (key name : String) (f : β → Value) (o : Option β)
    (rows : List (String × Value)) :
    entry (entryIf name f o ++ rows) key =
      if key = name then o.elim (entry rows key) f else entry rows key := by
  cases o with
  | none => simp [entryIf]
  | some b => exact entry_cons key name (f b) rows

/-- An optional value is null where it is absent. -/
theorem Value.ofOption_eq_elim (f : β → Value) (o : Option β) :
    ofOption f o = o.elim .null f := by
  cases o <;> rfl

/-- A field of a section: how its value is kept, and what is kept where the data does not
    have it. Without a default it has to be there. -/
structure FieldReading where
  name : String
  reading : Reading
  default : Option Value

/-- The rows of a section and the entries they are kept as. -/
structure KeepsRows (fields : List FieldReading) (rows entries : List (String × Value)) :
    Prop where
  distinct : (rows.map Prod.fst).Nodup
  declared : rows.map Prod.fst ⊆ fields.map (·.name)
  ordered : (entries.map Prod.fst).Sublist (fields.map (·.name))
  kept : ∀ field ∈ fields, ∀ v, rows.lookup field.name = some v →
    field.reading v (Value.entry entries field.name)
  default : ∀ field ∈ fields, rows.lookup field.name = none →
    field.default = some (Value.entry entries field.name)

namespace Reading

/-- A value is kept as it is. -/
def same : Reading :=
  fun v kept => kept = v

/-- A scalar is kept as its text. -/
def text : Reading :=
  fun v kept => ∃ s, v.text? = some s ∧ kept = .string s

/-- The name of a level is kept, one of its two names becoming the other. -/
def level : Reading :=
  fun v kept => ∃ s, v = .string s ∧ kept = .string (if s = "WARNING" then "WARN" else s)

/-- A number is kept, what is not a number as such, and an integer as a nearest number:
    the equal one, if there is one (`Binary64.IsNearest.value_eq`). -/
def number : Reading :=
  fun v kept => ∃ x, kept = .float x ∧
    ((∃ n : Int, v = .int n ∧ x.IsNearest n) ∨
      ∃ y, v = .float y ∧ (x = y ∨ x.isNaN = true ∧ y.isNaN = true))

/-- Null is kept as null. -/
def optional (reading : Reading) : Reading :=
  fun v kept => (v = .null ∧ kept = .null) ∨ (v ≠ .null ∧ reading v kept)

/-- A section is kept field by field. -/
def record (fields : List FieldReading) : Reading :=
  fun v kept => ∃ rows entries,
    v = .record rows ∧ kept = .record entries ∧ KeepsRows fields rows entries

/-! ### The sections of a workflow -/

/-- A `logging` section. -/
def logging : Reading :=
  record [
    ⟨"stdout", level, some (.string "INFO")⟩,
    ⟨"file", level, some (.string "DEBUG")⟩]

/-- What is kept of a `logging` section that is absent. -/
def defaultLogging : Value :=
  .record [("stdout", .string "INFO"), ("file", .string "DEBUG")]

/-- The `main` section. -/
def main : Reading :=
  record [
    ⟨"num_episodes", optional same, some .null⟩,
    ⟨"num_steps", optional same, some .null⟩,
    ⟨"eval_schedule", optional same, some .null⟩,
    ⟨"logging", logging, some defaultLogging⟩]

/-- The controller. -/
def controller : Reading :=
  record [⟨"host", text, none⟩, ⟨"port", same, none⟩]

/-- The section `rollout.parallelism`. -/
def parallelism : Reading :=
  record [
    ⟨"sampling", same, some (.int 1)⟩,
    ⟨"eval", optional same, some .null⟩,
    ⟨"min_env_samples", optional same, some .null⟩,
    ⟨"grace_factor", optional number, some .null⟩,
    ⟨"controller", optional controller, some .null⟩]

/-- The `rollout` section. -/
def rollout : Reading :=
  record [
    ⟨"parallelism", optional parallelism, some .null⟩,
    ⟨"logging", logging, some defaultLogging⟩]

/-- The section `training.checkpointing`. -/
def checkpointing : Reading :=
  record [⟨"path", text, none⟩, ⟨"interval", same, none⟩]

/-- The section `training.proxy`. -/
def proxy : Reading :=
  record [⟨"host", text, none⟩, ⟨"frontend", same, none⟩, ⟨"backend", same, none⟩]

/-- The `training` section. -/
def training : Reading :=
  record [
    ⟨"mode", same, some (.string "simple")⟩,
    ⟨"load_path", optional text, some .null⟩,
    ⟨"load_episode", optional same, some .null⟩,
    ⟨"checkpointing", optional checkpointing, some .null⟩,
    ⟨"proxy", optional proxy, some .null⟩,
    ⟨"num_workers", optional same, some .null⟩,
    ⟨"logging", logging, some defaultLogging⟩]

/-- A document. -/
def workflow : Reading :=
  record [
    ⟨"job", text, none⟩,
    ⟨"scenario_path", text, none⟩,
    ⟨"log_path", text, none⟩,
    ⟨"main", main, some (.record [
      ("num_episodes", .null), ("num_steps", .null), ("eval_schedule", .null),
      ("logging", defaultLogging)])⟩,
    ⟨"rollout", rollout, some (.record [("logging", defaultLogging)])⟩,
    ⟨"training", training, some (.record [
      ("mode", .string "simple"), ("load_path", .null), ("load_episode", .null),
      ("logging", defaultLogging)])⟩]

end Reading

/-! ## Values -/

/-- What is decoded is kept: data that shows a value is read as the data of that value. -/
def Shape.Keeps (shape : Shape β) (toValue : β → Value) (reading : Reading) : Prop :=
  ∀ v b, IsUntagged v → shape.shows v b → reading v (toValue b)

theorem keeps_text : textShape.Keeps .string .text :=
  fun _ s _ hs => ⟨s, hs, rfl⟩

theorem keeps_path : pathShape.Keeps .ofPath .text :=
  fun _ p _ hp => ⟨p.text, hp, rfl⟩

theorem keeps_count : countShape.Keeps .ofUInt32 .same :=
  fun _ _ _ hn => hn.symm

theorem keeps_port : portShape.Keeps .ofUInt16 .same :=
  fun _ _ _ hn => hn.symm

theorem keeps_schedule : scheduleShape.Keeps EvalSchedule.toValue .same :=
  fun _ _ _ hs => hs.symm

/-- Only texts are names of levels. -/
theorem keeps_level : levelShape.Keeps (fun l => .string l.name) .level := by
  rintro v l h ⟨name, htext, hname⟩
  have hlevel : isPlainText name = true ∧ l.name = if name = "WARNING" then "WARN" else name := by
    unfold LogLevel.ofName? at hname
    split at hname <;> cases hname <;> decide
  exact ⟨name, eq_string_of_text? h htext hlevel.1, congrArg Value.string hlevel.2⟩

/-- Only texts are names of modes. -/
theorem keeps_mode : modeShape.Keeps (fun m => .string m.name) .same := by
  rintro v m h ⟨name, htext, hname⟩
  have hmode : isPlainText name = true ∧ m.name = name := by
    unfold TrainingMode.ofName? at hname
    split at hname <;> cases hname <;> decide
  rw [eq_string_of_text? h htext hmode.1]
  exact congrArg Value.string hmode.2

/-- A number that is written is read back, what is not a number as such. -/
private theorem eq_or_isNaN_of_readFloat? {x y : Binary64}
    (h : readFloat? (Value.floatText y).toList = some x) :
    x = y ∨ x.isNaN = true ∧ y.isNaN = true := by
  by_cases hfinite : y.isFinite = true
  · rw [floatText_of_isFinite hfinite, readFloat?_toScientific hfinite] at h
    exact Or.inl (Option.some.inj h).symm
  rw [Value.floatText] at h
  split at h
  · rename_i hnan
    obtain rfl : Binary64.nan = x := Option.some.inj h
    exact Or.inr ⟨by decide, hnan⟩
  · rename_i hnan
    rw [Bool.not_eq_true] at hfinite hnan
    -- infinity has nothing but a sign, which is written before the word
    rw [if_pos (by simpa using hfinite), Binary64.signText] at h
    left
    rw [← Binary64.infinity_isNegative hfinite hnan]
    cases hsign : y.isNegative with
    | true =>
      rw [hsign] at h
      exact (Option.some.inj h).symm
    | false =>
      rw [hsign] at h
      exact (Option.some.inj h).symm

theorem keeps_number : numberShape.Keeps .float .number := by
  rintro v x h ⟨hstring, text, htext, hread⟩
  refine ⟨x, rfl, ?_⟩
  have hnumber {word : String} (hword : readFloat? word.toList = none) : text ≠ word := by
    rintro rfl
    rw [hword] at hread
    cases hread
  cases h with
  | null => exact absurd (Option.some.inj htext).symm (hnumber (by decide))
  | bool b =>
    cases b with
    | true => exact absurd (Option.some.inj htext).symm (hnumber (by decide))
    | false => exact absurd (Option.some.inj htext).symm (hnumber (by decide))
  | @int n hlow hhigh =>
    obtain rfl := Option.some.inj htext
    exact Or.inl ⟨n, rfl, Binary64.isNearest_of_readFloat? hlow hhigh hread⟩
  | float y =>
    obtain rfl := Option.some.inj htext
    exact Or.inr ⟨y, rfl, eq_or_isNaN_of_readFloat? hread⟩
  | string s => exact absurd rfl (hstring s)
  | sequence => cases htext
  | mapping => cases htext

/-- Null aside, an optional value is kept as the value is. -/
theorem Shape.Keeps.optional {shape : Shape β} {toValue : β → Value} {reading : Reading}
    (h : shape.Keeps toValue reading) :
    shape.optional.Keeps (Value.ofOption toValue) reading.optional := by
  intro v o hv hshown
  cases o with
  | none => exact Or.inl ⟨hshown, rfl⟩
  | some b => exact Or.inr ⟨hshown.1, h v b hv hshown.2⟩

/-! ## Sections -/

/-- A part of a section is kept in the entry of its name. -/
structure KeepsPart (required : List String) (start : α)
    (entries : α → List (String × Value)) (p : Part α) (field : FieldReading) : Prop where
  name_eq : p.name = field.name
  kept : ∃ toValue : p.β → Value,
    (∀ a, Value.entry (entries a) p.name = toValue (p.get a)) ∧
      p.shape.Keeps toValue field.reading ∧
      (p.name ∈ required ∨ field.default = some (toValue (p.get start)))

section Section

variable {parts : List (Part α)} {fields : List FieldReading} {title : String}
  {required : List String} {start : α} {entries : α → List (String × Value)}

/-- Parts that are kept as fields have their names. -/
private theorem map_name_eq
    (h : List.Forall₂ (KeepsPart required start entries) parts fields) :
    parts.map (·.name) = fields.map (·.name) := by
  induction h with
  | nil => rfl
  | cons h _ ih => rw [List.map_cons, List.map_cons, h.name_eq, ih]

/-- A field keeps some part. -/
private theorem exists_keepsPart
    (h : List.Forall₂ (KeepsPart required start entries) parts fields) {field : FieldReading}
    (hmem : field ∈ fields) : ∃ p ∈ parts, KeepsPart required start entries p field := by
  induction h with
  | nil => cases hmem
  | cons h _ ih =>
    rcases List.mem_cons.mp hmem with rfl | hmem
    · exact ⟨_, List.mem_cons_self, h⟩
    · obtain ⟨p, hp, hkeeps⟩ := ih hmem
      exact ⟨p, List.mem_cons_of_mem _ hp, hkeeps⟩

/-- A section keeps what its parts keep. -/
theorem Shape.keeps_ofParts (hparts : IsPartition parts)
    (hfields : List.Forall₂ (KeepsPart required start entries) parts fields)
    (hordered : ∀ a, ((entries a).map Prod.fst).Sublist (fields.map (·.name))) :
    (Shape.ofParts title required start hparts).Keeps (fun a => .record (entries a))
      (.record fields) := by
  rintro v b hv ⟨rows, rfl, hnames, hrequired, hshown⟩
  rw [isUntagged_record_iff] at hv
  refine ⟨rows, entries b, rfl, rfl, hnames.distinct, ?_, hordered b, ?_, ?_⟩
  · intro name hname
    obtain ⟨row, hrow, rfl⟩ := List.mem_map.mp hname
    rw [← map_name_eq hfields]
    exact hnames.known row hrow
  · -- a row shows its part, and the part is kept under the name of the row
    intro field hfield v hlookup
    obtain ⟨p, hp, hname, toValue, hentry, hkeeps, -⟩ := exists_keepsPart hfields hfield
    have hp := hshown p hp
    rw [← hname] at hlookup ⊢
    rw [Part.Shown, hlookup] at hp
    rw [hentry]
    exact hkeeps v _ (hv _ (Environment.mem_of_lookup_eq_some hlookup)) hp
  · -- without a row the part is not a required one and is what the section starts from
    intro field hfield hlookup
    obtain ⟨p, hp, hname, toValue, hentry, -, hdefault⟩ := exists_keepsPart hfields hfield
    have hp := hshown p hp
    rw [← hname] at hlookup ⊢
    rw [Part.Shown, hlookup] at hp
    rw [hentry, show p.get b = p.get start from hp]
    refine hdefault.resolve_left fun hmem => ?_
    exact Environment.lookup_eq_none_iff.mp hlookup (hrequired hmem)

end Section

/-! ## The sections of a workflow

A part is required, or its default is what the section starts from. -/

theorem keeps_logging : loggingShape.Keeps Logging.toValue .logging :=
  Shape.keeps_ofParts _
    (.cons ⟨rfl, _, fun _ => by rfl, keeps_level, Or.inr rfl⟩ <|
      .cons ⟨rfl, _, fun _ => by rfl, keeps_level, Or.inr rfl⟩ .nil)
    fun _ => .refl _

theorem keeps_main : mainShape.Keeps MainSection.toValue .main :=
  Shape.keeps_ofParts _
    (.cons ⟨rfl, _, fun _ => by rfl, keeps_count.optional, Or.inr rfl⟩ <|
      .cons ⟨rfl, _, fun _ => by rfl, keeps_count.optional, Or.inr rfl⟩ <|
      .cons ⟨rfl, _, fun _ => by rfl, keeps_schedule.optional, Or.inr rfl⟩ <|
      .cons ⟨rfl, _, fun _ => by rfl, keeps_logging, Or.inr rfl⟩ .nil)
    fun _ => .refl _

theorem keeps_controller : controllerShape.Keeps Controller.toValue .controller :=
  Shape.keeps_ofParts _
    (.cons ⟨rfl, _, fun _ => by rfl, keeps_text, Or.inl (by decide)⟩ <|
      .cons ⟨rfl, _, fun _ => by rfl, keeps_port, Or.inl (by decide)⟩ .nil)
    fun _ => .refl _

theorem keeps_parallelism : parallelismShape.Keeps Parallelism.toValue .parallelism :=
  Shape.keeps_ofParts _
    (.cons ⟨rfl, _, fun _ => by rfl, keeps_count, Or.inr rfl⟩ <|
      .cons ⟨rfl, _, fun _ => by rfl, keeps_count.optional, Or.inr rfl⟩ <|
      .cons ⟨rfl, _, fun _ => by rfl, keeps_count.optional, Or.inr rfl⟩ <|
      .cons ⟨rfl, _, fun _ => by rfl, keeps_number.optional, Or.inr rfl⟩ <|
      .cons ⟨rfl, _, fun _ => by rfl, keeps_controller.optional, Or.inr rfl⟩ .nil)
    fun _ => .refl _

theorem keeps_checkpointing :
    checkpointingShape.Keeps Checkpointing.toValue .checkpointing :=
  Shape.keeps_ofParts _
    (.cons ⟨rfl, _, fun _ => by rfl, keeps_path, Or.inl (by decide)⟩ <|
      .cons ⟨rfl, _, fun _ => by rfl, keeps_count, Or.inl (by decide)⟩ .nil)
    fun _ => .refl _

theorem keeps_proxy : proxyShape.Keeps Proxy.toValue .proxy :=
  Shape.keeps_ofParts _
    (.cons ⟨rfl, _, fun _ => by rfl, keeps_text, Or.inl (by decide)⟩ <|
      .cons ⟨rfl, _, fun _ => by rfl, keeps_port, Or.inl (by decide)⟩ <|
      .cons ⟨rfl, _, fun _ => by rfl, keeps_port, Or.inl (by decide)⟩ .nil)
    fun _ => .refl _

/-- An entry that may be left out has its name, or none. -/
private theorem sublist_entryIf_append {name : String} {f : β → Value} {o : Option β}
    {rows : List (String × Value)} {names : List String}
    (h : (rows.map Prod.fst).Sublist names) :
    ((Value.entryIf name f o ++ rows).map Prod.fst).Sublist (name :: names) := by
  cases o with
  | none => exact h.cons name
  | some b => exact h.cons_cons name

theorem keeps_rollout : rolloutShape.Keeps RolloutSection.toValue .rollout := by
  refine Shape.keeps_ofParts _
    (.cons ⟨rfl, _, ?_, keeps_parallelism.optional, Or.inr rfl⟩ <|
      .cons ⟨rfl, _, ?_, keeps_logging, Or.inr rfl⟩ .nil)
    fun _ => sublist_entryIf_append (.refl _)
  all_goals exact fun r => by simp [Value.ofOption_eq_elim]

theorem keeps_training : trainingShape.Keeps TrainingSection.toValue .training := by
  have hentries : TrainingSection.toValue = fun t => .record <|
      ("mode", .string t.mode.name) ::
      ("load_path", .ofOption .ofPath t.loadPath) ::
      ("load_episode", .ofOption .ofUInt32 t.loadEpisode) ::
      (Value.entryIf "checkpointing" Checkpointing.toValue t.checkpointing ++
      (Value.entryIf "proxy" Proxy.toValue t.proxy ++
      (Value.entryIf "num_workers" .ofUInt32 t.numWorkers ++
      [("logging", t.logging.toValue)]))) := by
    funext t
    simp [TrainingSection.toValue]
  rw [hentries]
  refine Shape.keeps_ofParts _
    (.cons ⟨rfl, _, ?_, keeps_mode, Or.inr rfl⟩ <|
      .cons ⟨rfl, _, ?_, keeps_path.optional, Or.inr rfl⟩ <|
      .cons ⟨rfl, _, ?_, keeps_count.optional, Or.inr rfl⟩ <|
      .cons ⟨rfl, _, ?_, keeps_checkpointing.optional, Or.inr rfl⟩ <|
      .cons ⟨rfl, _, ?_, keeps_proxy.optional, Or.inr rfl⟩ <|
      .cons ⟨rfl, _, ?_, keeps_count.optional, Or.inr rfl⟩ <|
      .cons ⟨rfl, _, ?_, keeps_logging, Or.inr rfl⟩ .nil)
    fun _ => ?ordered
  case ordered =>
    exact .cons_cons _ <| .cons_cons _ <| .cons_cons _ <|
      sublist_entryIf_append <| sublist_entryIf_append <| sublist_entryIf_append (.refl _)
  all_goals exact fun t => by simp [Value.ofOption_eq_elim]

theorem keeps_workflow : workflowShape.Keeps Workflow.toValue .workflow :=
  Shape.keeps_ofParts _
    (.cons ⟨rfl, _, fun _ => by rfl, keeps_text, Or.inl (by decide)⟩ <|
      .cons ⟨rfl, _, fun _ => by rfl, keeps_path, Or.inl (by decide)⟩ <|
      .cons ⟨rfl, _, fun _ => by rfl, keeps_path, Or.inl (by decide)⟩ <|
      .cons ⟨rfl, _, fun _ => by rfl, keeps_main, Or.inr rfl⟩ <|
      .cons ⟨rfl, _, fun _ => by rfl, keeps_rollout, Or.inr rfl⟩ <|
      .cons ⟨rfl, _, fun _ => by rfl, keeps_training, Or.inr rfl⟩ .nil)
    fun _ => .refl _

namespace Workflow

/-- Decoding drops and invents nothing: the document of the workflow that data is decoded to
    holds what the data holds, up to the readings of the fields. Every key of the data is a
    field, and a field that is absent has its default. -/
theorem reading_toValue {v : Value} (h : IsUntagged v) {w : Workflow}
    (hread : ofValue v = .ok w) : Reading.workflow v w.toValue := by
  obtain ⟨rows, hrows, -, hshown⟩ := (ofValue_eq_ok_iff h w).mp hread
  exact keeps_workflow v w h ⟨rows, hrows, hshown⟩

/-- A number in a text field, both names of a level, and an integer for a number. -/
theorem reading_toValue_scalars :
    let v := Value.record [
      ("job", .int 7), ("scenario_path", .string "s"), ("log_path", .string "l"),
      ("main", .record [("logging", .record [
        ("stdout", .string "WARNING"), ("file", .string "WARN")])]),
      ("rollout", .record [("parallelism", .record [
        ("eval", .null), ("grace_factor", .int 2)])])]
    let w := { minimal "7" ⟨"s"⟩ ⟨"l"⟩ with
      main := { logging := ⟨.warn, .warn⟩ }
      rollout := { parallelism := some { graceFactor := some ⟨0x4000000000000000⟩ } } }
    IsUntagged v ∧ ofValue v = .ok w ∧ Reading.workflow v w.toValue := by
  intro v w
  have huntagged : IsUntagged v := by
    simp [v, isUntagged_record_iff, IsUntagged.null, IsUntagged.int, IsUntagged.string]
  have hread : ofValue v = .ok w := eq_ok_of_toOption (by decide +kernel)
  exact ⟨huntagged, hread, reading_toValue huntagged hread⟩

/-- Beyond 53 bits an integer need not be a number, and another one is kept. -/
theorem ofValue_graceFactor_ne :
    let v := Value.record [
      ("job", .string "j"), ("scenario_path", .string "s"), ("log_path", .string "l"),
      ("rollout", .record [("parallelism", .record [
        ("grace_factor", .int 9007199254740993)])])]
    let x : Binary64 := ⟨0x4340000000000000⟩
    let w := { minimal "j" ⟨"s"⟩ ⟨"l"⟩ with
      rollout := { parallelism := some { graceFactor := some x } } }
    IsUntagged v ∧ ofValue v = .ok w ∧ x.value ≠ 9007199254740993 := by
  intro v x w
  have huntagged : IsUntagged v := by
    simp [v, isUntagged_record_iff, IsUntagged.int, IsUntagged.string]
  have hread : ofValue v = .ok w := eq_ok_of_toOption (by decide +kernel)
  have hvalue : x.value = 9007199254740992 := by
    rw [Binary64.value, show x.isNegative = false by decide,
      show x.significand = 2 ^ 52 by decide, show x.exponent = 1 by decide]
    norm_num
  refine ⟨huntagged, hread, ?_⟩
  rw [hvalue]
  norm_num

end Workflow

end RunPlan
