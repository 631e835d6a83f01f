import RunPlan.Proofs.NullDocuments

/-!
# Required fields

The required fields of a document are looked at before it is decoded, so that the first one that
is missing is reported whatever else is wrong with the document. The schema asks for the same
fields once more and never has anything to report: below the document only other fields are
asked for (`MissesOnly`), and what has been looked at before is seen again when the entries are
read (`mem_sectionFields_of_decode`).

## Key results

- `checkRequired_eq_error_iff`: which field is reported
- `mem_sectionFields_of_decode`: which fields the schema reports after that
- `Workflow.reportsRequired`: texts of documents and data that lack required fields
-/

namespace RunPlan

open Yaml

/-! ## The first field that is missing -/

namespace Value

variable {entries : List (Value × Value)} {name : String} {v : Value}

/-- Whether a field is absent from a mapping, or null in it. -/
def Lacks (entries : List (Value × Value)) (name : String) : Prop :=
  find? entries name = none ∨ find? entries name = some .null

/-- Which required field is the first one that data lacks. Null lacks all of them. -/
inductive FirstMissing : Value → String → Prop where
  | null : FirstMissing .null "job"
  | field {entries : List (Value × Value)} {before after : List String} {name : String}
      (hfields : requiredFields = before ++ name :: after)
      (hbefore : ∀ other ∈ before, ¬Lacks entries other) (hname : Lacks entries name) :
      FirstMissing (.mapping entries) name

/-- A field that is looked up is missing when it is absent or null. -/
theorem isMissing_iff : isMissing entries name = true ↔ Lacks entries name := by
  unfold isMissing Lacks
  cases find? entries name with
  | none => simp
  | some v => cases v <;> simp [isNull]

/-- The first field that a mapping lacks is found by looking them up in order. -/
theorem firstMissing_mapping_iff :
    (mapping entries).FirstMissing name ↔
      requiredFields.find? (isMissing entries) = some name := by
  rw [List.find?_eq_some_iff_append]
  constructor
  · intro h
    cases h with
    | @field _ before after _ hfields hbefore hname =>
      refine ⟨isMissing_iff.mpr hname, before, after, hfields, fun other hother => ?_⟩
      rw [Bool.not_eq_true', Bool.eq_false_iff]
      exact fun hmissing => hbefore other hother (isMissing_iff.mp hmissing)
  · intro ⟨hname, before, after, hfields, hbefore⟩
    refine .field hfields (fun other hother hlacks => ?_) (isMissing_iff.mp hname)
    have hmissing := hbefore other hother
    rw [isMissing_iff.mpr hlacks] at hmissing
    cases hmissing

/-- Something is missing from null, and from a mapping that lacks a required field. -/
theorem exists_firstMissing_iff :
    (∃ name, v.FirstMissing name) ↔
      v = .null ∨
        ∃ entries, v = .mapping entries ∧ ∃ name ∈ requiredFields, Lacks entries name := by
  constructor
  · intro ⟨name, h⟩
    cases h with
    | null => exact Or.inl rfl
    | field hfields _ hname =>
      exact Or.inr ⟨_, rfl, _, by rw [hfields]; simp, hname⟩
  · rintro (rfl | ⟨entries, rfl, name, hname, hlacks⟩)
    · exact ⟨_, .null⟩
    · have hfound : (requiredFields.find? (isMissing entries)).isSome = true :=
        List.find?_isSome.mpr ⟨name, hname, isMissing_iff.mpr hlacks⟩
      obtain ⟨first, hfirst⟩ := Option.isSome_iff_exists.mp hfound
      exact ⟨first, firstMissing_mapping_iff.mpr hfirst⟩

end Value

/-- The field that is reported as missing is the first one that is. -/
theorem checkRequired_eq_error_iff {v : Value} {name : String} :
    checkRequired v = .error (.missingField name) ↔ v.FirstMissing name := by
  cases v with
  | null =>
    constructor
    · intro h
      cases h
      exact .null
    · intro h
      cases h
      rfl
  | mapping entries =>
    rw [Value.firstMissing_mapping_iff]
    unfold checkRequired
    cases hfind : requiredFields.find? (isMissing entries) with
    | none => simp [hfind]
    | some first => simp [hfind]
  | _ => constructor <;> nofun

/-- The required fields are all there, or one of them is missing, or there are no fields. -/
theorem checkRequired_cases (v : Value) :
    (∃ entries, v = .mapping entries ∧ checkRequired v = .ok ()) ∨
      (∃ name, checkRequired v = .error (.missingField name)) ∨
      checkRequired v = .error (.document (.wrongRoot v.kindName)) := by
  cases v with
  | null => exact Or.inr (Or.inl ⟨"job", rfl⟩)
  | mapping entries =>
    cases hfind : requiredFields.find? (isMissing entries) with
    | none => exact Or.inl ⟨entries, rfl, by rw [checkRequired, hfind]⟩
    | some name => exact Or.inr (Or.inl ⟨name, by rw [checkRequired, hfind]⟩)
  | _ => exact Or.inr (Or.inr rfl)

/-- Only a mapping has all required fields. -/
theorem exists_mapping_of_checkRequired {v : Value} (h : checkRequired v = .ok ()) :
    ∃ entries, v = .mapping entries := by
  rcases checkRequired_cases v with ⟨entries, hv, -⟩ | ⟨name, hcheck⟩ | hcheck
  · exact ⟨entries, hv⟩
  · cases hcheck.symm.trans h
  · cases hcheck.symm.trans h

/-! ## What the schema reports -/

variable {α β : Type} {names : List String}

/-- Whether the only fields that a decoder reports as missing are those of a list. -/
def MissesOnly (names : List String) (decode : NodePath → Node → Except SchemaError β) : Prop :=
  ∀ path n place name, decode path n = .error ⟨place, .missingField name⟩ → name ∈ names

/-- Whether the only fields that are reported as missing below a field are those of a list. -/
def Field.MissesOnly (names : List String) (field : Field α) : Prop :=
  ∀ path n a place name, field.read path n a = .error ⟨place, .missingField name⟩ → name ∈ names

/-- A part of a section reports what its decoder does. -/
theorem MissesOnly.field {decode : NodePath → Node → Except SchemaError β}
    (h : MissesOnly names decode) {name : String} {store : α → β → α} :
    (Field.of name decode store).MissesOnly names :=
  fun path n _ place missing hread => h path n place missing (map_eq_error_iff.mp hread)

/-- A result of a decoder that is put in another form. -/
theorem MissesOnly.map {decode : NodePath → Node → Except SchemaError α}
    (h : MissesOnly names decode) (f : α → β) :
    MissesOnly names fun path n => f <$> decode path n :=
  fun path n place name hdecode => h path n place name (map_eq_error_iff.mp hdecode)

/-- An absent value is not missing. -/
theorem MissesOnly.optional {decode : NodePath → Node → Except SchemaError β}
    (h : MissesOnly names decode) : MissesOnly names (decodeOption decode) := by
  intro path n place name hdecode
  unfold decodeOption at hdecode
  split at hdecode
  · cases hdecode
  · exact h.map some path n place name hdecode

/-! ### Scalars and schedules -/

theorem missesOnly_text (expected : String) : MissesOnly names (decodeText expected) := by
  intro path n place name h
  unfold decodeText at h
  split at h
  · cases h
  · cases h

theorem missesOnly_path : MissesOnly names decodePath :=
  (missesOnly_text _).map Path.mk

theorem missesOnly_nat (largest : Nat) (expected : String) :
    MissesOnly names (decodeNat largest expected) := by
  intro path n place name h
  unfold decodeNat at h
  split at h
  · split at h
    · split at h
      · cases h
      · cases h
    · cases h
  · cases h

theorem missesOnly_count : MissesOnly names decodeUInt32 :=
  (missesOnly_nat _ _).map UInt32.ofNat

theorem missesOnly_port : MissesOnly names decodeUInt16 :=
  (missesOnly_nat _ _).map UInt16.ofNat

theorem missesOnly_number : MissesOnly names decodeFloat := by
  intro path n place name h
  unfold decodeFloat at h
  split at h
  · split at h
    · cases h
    · cases h
  · cases h

theorem missesOnly_variant (ofName? : String → Option β) (known : List String) :
    MissesOnly names (decodeVariant ofName? known) := by
  intro path n place name h
  unfold decodeVariant at h
  dsimp only at h
  split at h
  · split at h
    · rcases bind_eq_error_iff.mp h with hname | ⟨a, -, hnull⟩
      · split at hname
        · cases hname
        · cases hname
      · split at hnull
        · cases hnull
        · cases hnull
    · split at h
      · cases h
      · cases h
  · split at h
    · rcases bind_eq_error_iff.mp h with hname | ⟨a, -, hunit⟩
      · split at hname
        · cases hname
        · cases hname
      · cases hunit
    · cases h

theorem missesOnly_schedule : MissesOnly names decodeSchedule := by
  intro path n place name h
  unfold decodeSchedule at h
  split at h
  · cases h
  · split at h
    · cases h
    · cases h

/-! ### Sections -/

section

variable {fields : List (Field α)} {path place : NodePath} {seen required : List String}
  {start a : α} {n : Node} {title name : String}

/-- Entries report what their fields do: other keys are not missing, but unknown or repeated. -/
theorem mem_of_decodeEntries {entries : List (Node × Node)}
    (hfields : ∀ field ∈ fields, field.MissesOnly names)
    (h : decodeEntries fields path seen a entries = .error ⟨place, .missingField name⟩) :
    name ∈ names := by
  induction entries generalizing seen a with
  | nil => cases h
  | cons entry rest ih =>
    obtain ⟨key, n⟩ := entry
    rw [decodeEntries] at h
    rcases bind_eq_error_iff.mp h with hkey | ⟨written, -, hvalue⟩
    · unfold fieldName at hkey
      split at hkey
      · cases hkey
      · cases hkey
    · split at hvalue
      · cases hvalue
      · rename_i field hfield
        split at hvalue
        · cases hvalue
        · rcases bind_eq_error_iff.mp hvalue with hread | ⟨b, -, hrest⟩
          · exact hfields field (List.mem_of_find?_eq_some hfield) _ _ _ _ _ hread
          · exact ih hrest

/-- What is reported as missing when entries have been read, or while they are. -/
private theorem mem_or_of_entries (entries : List (Node × Node))
    (hfields : ∀ field ∈ fields, field.MissesOnly names)
    (h : (do
      let (seen, a) ← decodeEntries fields path [] start entries
      match required.find? (!seen.contains ·) with
      | some name => .error ⟨path, .missingField name⟩
      | none => .ok a) = (.error ⟨place, .missingField name⟩ : Except SchemaError α)) :
    name ∈ names ∨ name ∈ required ∧
      ∃ seen a, decodeEntries fields path [] start entries = .ok (seen, a) ∧ name ∉ seen := by
  rcases bind_eq_error_iff.mp h with hread | ⟨⟨seen, a⟩, hread, hmissing⟩
  · exact Or.inl (mem_of_decodeEntries hfields hread)
  · right
    dsimp only at hmissing
    split at hmissing
    · rename_i first hfirst
      obtain rfl : first = name := by
        cases hmissing
        rfl
      have hnew : first ∉ seen := by simpa using List.find?_some hfirst
      exact ⟨List.mem_of_find?_eq_some hfirst, seen, a, hread, hnew⟩
    · cases hmissing

/-- What a section reports as missing is reported below one of its fields, or is a field that it
    needs and whose name none of its entries has. -/
theorem mem_or_of_decodeSection (hfields : ∀ field ∈ fields, field.MissesOnly names)
    (h : decodeSection title fields required start path n = .error ⟨place, .missingField name⟩) :
    name ∈ names ∨ name ∈ required ∧ ∀ tag entries, n.target = .mapping tag entries →
      ∃ seen a, decodeEntries fields path [] start entries = .ok (seen, a) ∧ name ∉ seen := by
  unfold decodeSection at h
  split at h
  · rename_i tag entries htarget
    rw [htarget]
    refine (mem_or_of_entries entries hfields h).imp_right fun ⟨hname, hseen⟩ => ⟨hname, ?_⟩
    intro tag' entries' heq
    obtain rfl : entries = entries' := (Node.mapping.inj heq).2
    exact hseen
  · rename_i tag plain text htarget
    rw [htarget]
    split at h
    · -- a blank section has no entries to look at
      exact (mem_or_of_entries [] hfields h).imp_right fun ⟨hname, _⟩ => ⟨hname, nofun⟩
    · cases h
  · cases h

/-- A section reports the fields that it needs, and what its fields report. -/
theorem missesOnly_section (hfields : fields.Forall (·.MissesOnly names))
    (hrequired : required ⊆ names) :
    MissesOnly names (decodeSection title fields required start) := by
  intro path n place name h
  rcases mem_or_of_decodeSection (List.forall_iff_forall_mem.mp hfields) h with hname | ⟨hname, -⟩
  · exact hname
  · exact hrequired hname

end

/-- The fields that the sections below a document need. -/
def sectionFields : List String :=
  ["host", "port", "path", "interval", "frontend", "backend"]

theorem missesOnly_logging : MissesOnly sectionFields decodeLogging :=
  missesOnly_section ⟨(missesOnly_variant _ _).field, (missesOnly_variant _ _).field⟩ (by decide)

theorem missesOnly_main : MissesOnly sectionFields decodeMain := by
  apply missesOnly_section _ (by decide)
  refine ⟨?numEpisodes, ?numSteps, ?evalSchedule, ?logging⟩
  case numEpisodes => exact missesOnly_count.optional.field
  case numSteps => exact missesOnly_count.optional.field
  case evalSchedule => exact missesOnly_schedule.optional.field
  case logging => exact missesOnly_logging.field

theorem missesOnly_controller : MissesOnly sectionFields decodeController :=
  missesOnly_section ⟨(missesOnly_text _).field, missesOnly_port.field⟩ (by decide)

theorem missesOnly_parallelism : MissesOnly sectionFields decodeParallelism := by
  apply missesOnly_section _ (by decide)
  refine ⟨?sampling, ?eval, ?minEnvSamples, ?graceFactor, ?controller⟩
  case sampling => exact missesOnly_count.field
  case eval => exact missesOnly_count.optional.field
  case minEnvSamples => exact missesOnly_count.optional.field
  case graceFactor => exact missesOnly_number.optional.field
  case controller => exact missesOnly_controller.optional.field

theorem missesOnly_rollout : MissesOnly sectionFields decodeRollout :=
  missesOnly_section ⟨missesOnly_parallelism.optional.field, missesOnly_logging.field⟩ (by decide)

theorem missesOnly_checkpointing : MissesOnly sectionFields decodeCheckpointing :=
  missesOnly_section ⟨missesOnly_path.field, missesOnly_count.field⟩ (by decide)

theorem missesOnly_proxy : MissesOnly sectionFields decodeProxy :=
  missesOnly_section ⟨(missesOnly_text _).field, missesOnly_port.field, missesOnly_port.field⟩
    (by decide)

theorem missesOnly_training : MissesOnly sectionFields decodeTraining := by
  apply missesOnly_section _ (by decide)
  refine ⟨?mode, ?loadPath, ?loadEpisode, ?checkpointing, ?proxy, ?numWorkers, ?logging⟩
  case mode => exact (missesOnly_variant _ _).field
  case loadPath => exact missesOnly_path.optional.field
  case loadEpisode => exact missesOnly_count.optional.field
  case checkpointing => exact missesOnly_checkpointing.optional.field
  case proxy => exact missesOnly_proxy.optional.field
  case numWorkers => exact missesOnly_count.optional.field
  case logging => exact missesOnly_logging.field

theorem missesOnly_workflowFields : workflowFields.Forall (·.MissesOnly sectionFields) := by
  refine ⟨?job, ?scenarioPath, ?logPath, ?main, ?rollout, ?training⟩
  case job => exact (missesOnly_text _).field
  case scenarioPath => exact missesOnly_path.field
  case logPath => exact missesOnly_path.field
  case main => exact missesOnly_main.field
  case rollout => exact missesOnly_rollout.field
  case training => exact missesOnly_training.field

/-! ## Documents -/

/-- A scalar never reads as a mapping. -/
theorem scalarValue_ne_mapping (tag : Option String) (plain : Bool) (text : String)
    (entries : List (Value × Value)) : scalarValue tag plain text ≠ some (.mapping entries) := by
  have hplain : plainValue text ≠ some (.mapping entries) := by
    intro h
    unfold plainValue at h
    grind
  intro h
  unfold scalarValue at h
  split at h
  · rename_i core _
    cases core <;> simp [coreValue] at h
  · cases h
  · split at h
    · exact hplain h
    · cases h
  · split at h
    · exact hplain h
    · cases h

/-- Whether a node writes the keys of data, if the data is a mapping. -/
def Yaml.Node.WritesKeys (n : Node) (v : Value) : Prop :=
  ∀ entries, v = .mapping entries →
    ∃ tag nodes, n.target = .mapping tag nodes ∧ KeysWritten nodes entries

/-- A document that is printed writes the keys of what it is printed from. -/
theorem writesKeys_valueNode (v : Value) : (valueNode v).WritesKeys v := by
  rintro entries rfl
  exact ⟨none, _, rfl, keysWritten_entryNodes entries⟩

/-- What is a mapping under a tag is a mapping. -/
theorem eq_mapping_of_withTag {tag : Option String} {v : Value} {entries : List (Value × Value)}
    (h : withTag tag v = .mapping entries) : v = .mapping entries := by
  unfold withTag at h
  split at h
  · cases h
  · exact h

/-- A document writes the keys of what it reads as. -/
theorem writesKeys_of_toValue {v : Value} : ∀ {n : Node}, n.toValue = some v → n.WritesKeys v
  | .scalar tag plain text, h => by
    rintro entries rfl
    obtain ⟨u, hu, htag⟩ := Option.map_eq_some_iff.mp h
    rw [eq_mapping_of_withTag htag] at hu
    exact absurd hu (scalarValue_ne_mapping tag plain text entries)
  | .sequence tag items, h => by
    rintro entries rfl
    obtain ⟨us, -, htag⟩ := Option.map_eq_some_iff.mp h
    cases eq_mapping_of_withTag htag
  | .mapping tag nodes, h => by
    rintro entries rfl
    obtain ⟨others, hothers, htag⟩ := Option.map_eq_some_iff.mp h
    obtain rfl : others = entries := Value.mapping.inj (eq_mapping_of_withTag htag)
    exact ⟨tag, nodes, rfl, keysWritten_entryValues hothers⟩
  | .reference (some target), h => writesKeys_of_toValue (n := target) h
  | .reference none, h => nomatch h

section

variable {n : Node} {v : Value} {rest : Except WorkflowError Workflow}

/-- When no required field is missing, the schema reports fields of sections only: the required
    ones have entries, which have been seen. -/
theorem mem_sectionFields_of_decode {place : NodePath} {name : String} (hkeys : n.WritesKeys v)
    (hcheck : checkRequired v = .ok ())
    (h : Workflow.decode n = .error ⟨place, .missingField name⟩) : name ∈ sectionFields := by
  obtain ⟨entries, rfl⟩ := exists_mapping_of_checkRequired hcheck
  obtain ⟨tag, nodes, htarget, hwritten⟩ := hkeys entries rfl
  have hfields := List.forall_iff_forall_mem.mp missesOnly_workflowFields
  rcases mem_or_of_decodeSection hfields h with hname | ⟨hrequired, hentries⟩
  · exact hname
  · obtain ⟨seen, a, hread, hnew⟩ := hentries tag nodes htarget
    have hthere := checkRequired_mapping_iff.mp hcheck name hrequired
    obtain ⟨entry, hentry, htext, -⟩ := exists_entry_of_isMissing hthere
    obtain ⟨node, hnode, hkey⟩ := hwritten entry hentry name htext
    exact absurd (mem_names_of_decodeEntries isPartition_workflowParts hread hnode hkey) hnew

/-- How a result of loading data reports the required fields that the data lacks. -/
structure Value.ReportsRequired (v : Value) (result : Except WorkflowError Workflow) : Prop where
  /-- A field is reported as missing exactly from null, and from a mapping that lacks a required
      one. -/
  lacks : (∃ name, result = .error (.missingField name)) ↔
    v = .null ∨ ∃ entries, v = .mapping entries ∧ ∃ name ∈ requiredFields, Lacks entries name
  /-- It is the first one. -/
  first : ∀ name, result = .error (.missingField name) ↔ v.FirstMissing name
  /-- What is neither null nor a mapping is not looked into. -/
  root : v ≠ .null → (∀ entries, v ≠ .mapping entries) →
    result = .error (.document (.wrongRoot v.kindName))
  /-- The schema never reports a required field in its own way. -/
  schema : ∀ place, ∀ name ∈ requiredFields,
    result ≠ .error (.document (.schema ⟨place, .missingField name⟩))

/-- How what comes after required fields have been looked at can fail: the document does not fit
    the schema, there is none, or it has a problem. -/
inductive FailsLater (n : Node) : WorkflowError → Prop where
  | schema {error : SchemaError} (h : Workflow.decode n = .error error) :
      FailsLater n (.document (.schema error))
  | unreadable : FailsLater n (.document .unreadable)
  | invalid (p : Problem) : FailsLater n (.invalid p)

/-- The field that is reported as missing is still the first one. -/
private theorem bind_eq_missingField_iff (hrest : ∀ e, rest = .error e → FailsLater n e)
    {name : String} :
    (checkRequired v >>= fun _ => rest) = .error (.missingField name) ↔ v.FirstMissing name := by
  rw [← checkRequired_eq_error_iff, bind_eq_error_iff]
  refine or_iff_left fun ⟨_, _, h⟩ => ?_
  cases hrest _ h

/-- What the schema reports as missing is no required field. -/
private theorem notMem_requiredFields_of_bind (hkeys : n.WritesKeys v)
    (hrest : ∀ e, rest = .error e → FailsLater n e) {place : NodePath} {name : String}
    (h : (checkRequired v >>= fun _ => rest) =
      .error (.document (.schema ⟨place, .missingField name⟩))) : name ∉ requiredFields := by
  have hdisjoint : ∀ name ∈ sectionFields, name ∉ requiredFields := by decide
  rcases checkRequired_cases v with ⟨entries, -, hcheck⟩ | ⟨first, hcheck⟩ | hcheck
  · rw [hcheck] at h
    cases hrest _ h with
    | schema hdecode => exact hdisjoint name (mem_sectionFields_of_decode hkeys hcheck hdecode)
  · rw [hcheck] at h
    cases h
  · rw [hcheck] at h
    cases h

/-- Required fields are reported first when they are looked at first. -/
theorem reportsRequired_bind (hkeys : n.WritesKeys v)
    (hrest : ∀ e, rest = .error e → FailsLater n e) :
    v.ReportsRequired (checkRequired v >>= fun _ => rest) where
  lacks := by
    simp only [bind_eq_missingField_iff hrest]
    exact Value.exists_firstMissing_iff
  first _ := bind_eq_missingField_iff hrest
  root hnull hmapping := by
    cases v with
    | null => exact absurd rfl hnull
    | mapping entries => exact absurd rfl (hmapping entries)
    | _ => rfl
  schema _ _ hname h := notMem_requiredFields_of_bind hkeys hrest h hname

end

/-- What is no workflow by the schema fails to be decoded. -/
theorem failsLater_of_decodeDocument {n : Node} {e : WorkflowError}
    (h : decodeDocument n = .error e) : FailsLater n e := by
  unfold decodeDocument at h
  split at h
  · cases h
  · rename_i error herror
    rw [← Except.error.inj h]
    exact .schema herror

/-- A workflow with problems is refused with the first of them. -/
theorem exists_problem_of_validate {w : Workflow} {e : WorkflowError}
    (h : w.validate = .error e) : ∃ p, e = .invalid p := by
  unfold Workflow.validate at h
  split at h
  · cases h
  · exact ⟨_, (Except.error.inj h).symm⟩

namespace Workflow

/-- Required fields are reported first and only then: by texts of documents and by data alike,
    and whatever else is wrong with them. -/
theorem reportsRequired :
    (∀ (text : String) (n : Node) (v : Value), readNode text = .ok (n, v) →
      v.ReportsRequired (ofText text)) ∧
    ∀ v : Value, v.ReportsRequired (ofValue v) := by
  constructor
  · intro text n v hread
    unfold ofText
    rw [hread]
    apply reportsRequired_bind (writesKeys_of_toValue (toValue_of_readNode hread))
    intro e h
    rcases bind_eq_error_iff.mp h with hdecode | ⟨w, -, hrest⟩
    · exact failsLater_of_decodeDocument hdecode
    · rcases bind_eq_error_iff.mp hrest with hvalid | ⟨_, -, hw⟩
      · obtain ⟨p, rfl⟩ := exists_problem_of_validate hvalid
        exact .invalid p
      · cases hw
  · intro v
    refine reportsRequired_bind (writesKeys_valueNode v) fun e h => ?_
    split at h
    · rw [← Except.error.inj h]
      exact .unreadable
    · exact failsLater_of_decodeDocument h

/-- A document that has null for `log_path` and no `scenario_path`, which comes first of the two.
    A section that is a number and an unknown field are not looked at. -/
theorem reportsRequired_log_path_null :
    let document : Value := .record [
      ("log_path", .null), ("job", .string "j"), ("main", .int 3), ("extra", .string "x")]
    readNode (render document) = .ok (writtenNode document, document) ∧
      ofText (render document) = .error (.missingField "scenario_path") ∧
      ofValue (.sequence [document]) = .error (.document (.wrongRoot "a sequence")) := by
  intro document
  have hread : readNode (render document) = .ok (writtenNode document, document) := by
    have hwritten : IsWritten 0 .null ∧ IsWritten 0 (.string "j") ∧ IsWritten 0 (.int 3) ∧
        IsWritten 0 (.string "x") :=
      ⟨.scalar .null, .scalar (.string "j"), .scalar (.ofNat (show 3 < 2 ^ 64 by decide)),
        .scalar (.string "x")⟩
    have hdocument : IsWritten 1 document :=
      .record (isFieldName_of_all (by decide)) (by decide) (by simpa using hwritten)
    exact readNode_render (List.cons_ne_nil _ _) hdocument (by decide)
  have hfirst : document.FirstMissing "scenario_path" := by
    refine @Value.FirstMissing.field _ ["job"] ["log_path"] _ rfl ?_ (Or.inl rfl)
    simp [Value.Lacks, Value.find?, Value.isText]
  obtain ⟨htext, hvalue⟩ := reportsRequired
  exact ⟨hread, ((htext _ _ _ hread).first _).mpr hfirst, (hvalue _).root (by simp) (by simp)⟩

end Workflow

end RunPlan
