import RunPlan.Proofs.Load
import RunPlan.Proofs.Yaml.Document

/-!
# Data is taken like its document

`Workflow.ofValue` takes data without a document in between, as nodes in which every text has
quotes (`valueNode`). In the document of the data the writer leaves quotes off where it can
(`writtenNode`), but only off texts that are neither null nor a boolean or a number. So no
decoder sees the difference: not in what it accepts, and not in what it says of the rest.

Together with the reading of documents this makes data the same as the document that is printed
from it and read again.

## Key results

- `Workflow.ignoresQuotes_decode`: quotes that are left off make no difference
- `Workflow.ofValue_eq_ofPrinted`: data is taken like the document printed from it
- `Workflow.ofText_render`: the document is accepted when the data is and has no problems
-/

namespace RunPlan

open Yaml

variable {α β γ : Type} {s : String}

/-! ## Single values -/

/-- A function of nodes for which data is what stands in the document of the data. -/
def IgnoresQuotes (f : Node → γ) : Prop :=
  ∀ v, f (writtenNode v) = f (valueNode v)

/-- It is enough that a text may lose its quotes where it needs none, and that the parts of
    sequences and mappings are what stands in the document. -/
theorem IgnoresQuotes.of_parts {f : Node → γ}
    (htext : ∀ s, isPlainText s = true → f (.scalar none true s) = f (.scalar none false s))
    (hsequence : ∀ vs, f (.sequence none (writtenItems vs)) = f (.sequence none (valueNodes vs)))
    (hmapping : ∀ es, f (.mapping none (writtenEntries es)) = f (.mapping none (entryNodes es))) :
    IgnoresQuotes f := by
  intro v
  cases v with
  | string s =>
    rw [writtenNode, valueNode]
    cases hplain : textStyle s == .plain with
    | false => rfl
    | true => exact htext s (allowsPlain_of_textStyle (eq_of_beq hplain)).1
  | sequence vs => exact hsequence vs
  | mapping es => exact hmapping es
  -- other scalars stand in a document as they are, and so do tags
  | _ => rfl

/-- A text without quotes is a text. -/
private theorem scalarValue_plain (h : isPlainText s = true) :
    scalarValue none true s = some (.string s) :=
  plainValue_of_isPlainText h

/-- The path to a value does not depend on the quotes of its key. -/
theorem ignoresQuotes_step : IgnoresQuotes Node.step :=
  .of_parts (fun _ _ => rfl) (fun _ => rfl) fun _ => rfl

theorem ignoresQuotes_text (expected : String) (path : NodePath) :
    IgnoresQuotes (decodeText expected path) :=
  .of_parts (fun _ _ => rfl) (fun _ => rfl) fun _ => rfl

theorem ignoresQuotes_path (path : NodePath) : IgnoresQuotes (decodePath path) := fun v =>
  congrArg (Path.mk <$> ·) (ignoresQuotes_text "path string" path v)

/-- Where something else than a text is expected, a message says the same of a text with quotes
    and without. -/
private theorem wrongType_plain (h : isPlainText s = true) (path : NodePath) (expected : String) :
    (wrongType path (.scalar none true s) expected : Except SchemaError γ) =
      wrongType path (.scalar none false s) expected := by
  rw [wrongType, wrongType, foundIn, scalarValue_plain h]
  rfl

theorem ignoresQuotes_nat (largest : Nat) (expected : String) (path : NodePath) :
    IgnoresQuotes (decodeNat largest expected path) := by
  refine .of_parts (fun s h => ?_) (fun _ => rfl) fun _ => rfl
  simp only [decodeNat, Node.target, if_true, readUnsigned?_of_isPlainText h]
  exact wrongType_plain h path expected

theorem ignoresQuotes_uint32 (path : NodePath) : IgnoresQuotes (decodeUInt32 path) := fun v =>
  congrArg (UInt32.ofNat <$> ·) (ignoresQuotes_nat _ "u32" path v)

theorem ignoresQuotes_uint16 (path : NodePath) : IgnoresQuotes (decodeUInt16 path) := fun v =>
  congrArg (UInt16.ofNat <$> ·) (ignoresQuotes_nat _ "u16" path v)

theorem ignoresQuotes_float (path : NodePath) : IgnoresQuotes (decodeFloat path) := by
  refine .of_parts (fun s h => ?_) (fun _ => rfl) fun _ => rfl
  simp only [decodeFloat, Node.target, if_true, readFloat?_of_isPlainText h]
  exact wrongType_plain h path "f64"

theorem ignoresQuotes_variant (ofName? : String → Option α) (known : List String)
    (path : NodePath) : IgnoresQuotes (decodeVariant ofName? known path) :=
  .of_parts (fun _ _ => rfl) (fun _ => rfl) fun _ => rfl

theorem ignoresQuotes_level (path : NodePath) : IgnoresQuotes (decodeLevel path) :=
  ignoresQuotes_variant _ _ path

theorem ignoresQuotes_mode (path : NodePath) : IgnoresQuotes (decodeMode path) :=
  ignoresQuotes_variant _ _ path

/-- A text is not taken for a missing value, whether it has quotes or not. -/
theorem ignoresQuotes_isAbsent : IgnoresQuotes fun n => isAbsent n.target := by
  refine .of_parts (fun s h => ?_) (fun _ => rfl) fun _ => rfl
  simpa [Node.target, isAbsent, tagKind] using not_null_of_isPlainText h

theorem IgnoresQuotes.option {decode : NodePath → Node → Except SchemaError α}
    (h : ∀ path, IgnoresQuotes (decode path)) (path : NodePath) :
    IgnoresQuotes (decodeOption decode path) := by
  intro v
  have habsent := ignoresQuotes_isAbsent v
  dsimp only at habsent
  rw [decodeOption, decodeOption, habsent, h path v]

/-! ## Schedules -/

mutual

/-- The tags that are looked for are those of the data. -/
theorem findTag_writtenNode (path : NodePath) (v : Value) :
    findTag path (writtenNode v) = findTag path (valueNode v) := by
  cases v with
  | string s => rw [writtenNode, valueNode, findTag, findTag]
  | sequence vs => rw [writtenNode, valueNode, findTag, findTag, findTagItems_writtenItems]
  | mapping es => rw [writtenNode, valueNode, findTag, findTag, findTagEntries_writtenEntries]
  | _ => rfl

/-- The tags that are looked for in items. -/
theorem findTagItems_writtenItems (path : NodePath) (i : Nat) (vs : List Value) :
    findTagItems path i (writtenItems vs) = findTagItems path i (valueNodes vs) := by
  cases vs with
  | nil => rfl
  | cons v vs =>
    rw [writtenItems, valueNodes, findTagItems, findTagItems, findTag_writtenNode,
      findTagItems_writtenItems]

/-- The tags that are looked for in entries. -/
theorem findTagEntries_writtenEntries (path : NodePath) (es : List (Value × Value)) :
    findTagEntries path (writtenEntries es) = findTagEntries path (entryNodes es) := by
  cases es with
  | nil => rfl
  | cons e es =>
    obtain ⟨k, v⟩ := e
    rw [writtenEntries, entryNodes, findTagEntries, findTagEntries, findTag_writtenNode,
      ignoresQuotes_step, findTag_writtenNode, findTagEntries_writtenEntries]

end

theorem ignoresQuotes_episode : IgnoresQuotes episodeOf? := by
  refine .of_parts (fun s h => ?_) (fun _ => rfl) fun _ => rfl
  simp only [episodeOf?, Node.target, scalarValue_plain h]
  rfl

/-- The episodes of a list. -/
private theorem mapM_episodeOf?_writtenItems (vs : List Value) :
    (writtenItems vs).mapM episodeOf? = (valueNodes vs).mapM episodeOf? := by
  induction vs with
  | nil => rfl
  | cons v vs ih =>
    rw [writtenItems, valueNodes, List.mapM_cons, List.mapM_cons, ignoresQuotes_episode, ih]

theorem ignoresQuotes_schedule (path : NodePath) : IgnoresQuotes (decodeSchedule path) := by
  have hschedule : IgnoresQuotes scheduleOf? := by
    refine .of_parts (fun s h => ?_) (fun vs => ?_) fun _ => rfl
    · simp only [scheduleOf?, Node.target, episodeOf?, scalarValue_plain h]
      rfl
    · simp only [scheduleOf?, Node.target, mapM_episodeOf?_writtenItems]
  intro v
  rw [decodeSchedule, decodeSchedule, findTag_writtenNode, hschedule]

/-! ## Sections -/

/-- A field takes data as it takes what stands in the document of the data. -/
def Field.IgnoresQuotes (field : Field α) : Prop :=
  ∀ path v a, field.read path (writtenNode v) a = field.read path (valueNode v) a

theorem Field.IgnoresQuotes.of {name : String} {decode : NodePath → Node → Except SchemaError β}
    {store : α → β → α} (h : ∀ path, RunPlan.IgnoresQuotes (decode path)) :
    (Field.of name decode store).IgnoresQuotes := fun path v a =>
  congrArg (store a <$> ·) (h path v)

/-- The names of fields are the same with quotes and without. -/
theorem ignoresQuotes_fieldName (path : NodePath) : IgnoresQuotes (fieldName path) :=
  .of_parts (fun _ _ => rfl) (fun _ => rfl) fun _ => rfl

/-- The entries of a section are taken like those of the data. -/
private theorem decodeEntries_writtenEntries {fields : List (Field α)}
    (h : ∀ field ∈ fields, field.IgnoresQuotes) (path : NodePath) (seen : List String) (a : α)
    (es : List (Value × Value)) :
    decodeEntries fields path seen a (writtenEntries es) =
      decodeEntries fields path seen a (entryNodes es) := by
  induction es generalizing seen a with
  | nil => rfl
  | cons e es ih =>
    obtain ⟨k, v⟩ := e
    rw [writtenEntries, entryNodes, decodeEntries, decodeEntries, ignoresQuotes_fieldName,
      ignoresQuotes_step]
    -- the same name finds the same field, which takes the value alike
    congr 1
    funext name
    cases hfind : fields.find? (·.name == name) with
    | none => rfl
    | some field => simp only [h field (List.mem_of_find?_eq_some hfind) _ v a, ih]

/-- A section takes data as it takes the document of the data, when its fields do. -/
theorem IgnoresQuotes.section {fields : List (Field α)}
    (h : ∀ field ∈ fields, field.IgnoresQuotes) (title : String) (required : List String)
    (start : α) (path : NodePath) :
    IgnoresQuotes (decodeSection title fields required start path) := by
  refine .of_parts (fun s hs => ?_) (fun _ => rfl) fun es => ?_
  · -- an empty section is one without any text
    have hne : (s == "") = false := by
      rw [beq_eq_false_iff_ne]
      exact fun hempty => not_null_of_isPlainText hs (Or.inl hempty)
    simp only [decodeSection, Node.target, hne, Bool.and_false, Bool.false_eq_true, if_false]
    rw [wrongType_plain hs]
  · simp only [decodeSection, Node.target, bind, Except.bind, decodeEntries_writtenEntries h]

/-! ## The sections of a workflow -/

theorem ignoresQuotes_logging (path : NodePath) : IgnoresQuotes (decodeLogging path) := by
  refine .section ?_ _ _ _ path
  simp only [loggingFields, List.forall_mem_cons]
  exact ⟨.of ignoresQuotes_level, .of ignoresQuotes_level, List.forall_mem_nil _⟩

theorem ignoresQuotes_main (path : NodePath) : IgnoresQuotes (decodeMain path) := by
  refine .section ?_ _ _ _ path
  simp only [mainFields, List.forall_mem_cons]
  exact ⟨.of (.option ignoresQuotes_uint32), .of (.option ignoresQuotes_uint32),
    .of (.option ignoresQuotes_schedule), .of ignoresQuotes_logging, List.forall_mem_nil _⟩

theorem ignoresQuotes_controller (path : NodePath) : IgnoresQuotes (decodeController path) := by
  refine .section ?_ _ _ _ path
  simp only [controllerFields, List.forall_mem_cons]
  exact ⟨.of (ignoresQuotes_text _), .of ignoresQuotes_uint16, List.forall_mem_nil _⟩

theorem ignoresQuotes_parallelism (path : NodePath) : IgnoresQuotes (decodeParallelism path) := by
  refine .section ?_ _ _ _ path
  simp only [parallelismFields, List.forall_mem_cons]
  exact ⟨.of ignoresQuotes_uint32, .of (.option ignoresQuotes_uint32),
    .of (.option ignoresQuotes_uint32), .of (.option ignoresQuotes_float),
    .of (.option ignoresQuotes_controller), List.forall_mem_nil _⟩

theorem ignoresQuotes_rollout (path : NodePath) : IgnoresQuotes (decodeRollout path) := by
  refine .section ?_ _ _ _ path
  simp only [rolloutFields, List.forall_mem_cons]
  exact ⟨.of (.option ignoresQuotes_parallelism), .of ignoresQuotes_logging,
    List.forall_mem_nil _⟩

theorem ignoresQuotes_checkpointing (path : NodePath) :
    IgnoresQuotes (decodeCheckpointing path) := by
  refine .section ?_ _ _ _ path
  simp only [checkpointingFields, List.forall_mem_cons]
  exact ⟨.of ignoresQuotes_path, .of ignoresQuotes_uint32, List.forall_mem_nil _⟩

theorem ignoresQuotes_proxy (path : NodePath) : IgnoresQuotes (decodeProxy path) := by
  refine .section ?_ _ _ _ path
  simp only [proxyFields, List.forall_mem_cons]
  exact ⟨.of (ignoresQuotes_text _), .of ignoresQuotes_uint16, .of ignoresQuotes_uint16,
    List.forall_mem_nil _⟩

theorem ignoresQuotes_training (path : NodePath) : IgnoresQuotes (decodeTraining path) := by
  refine .section ?_ _ _ _ path
  simp only [trainingFields, List.forall_mem_cons]
  exact ⟨.of ignoresQuotes_mode, .of (.option ignoresQuotes_path),
    .of (.option ignoresQuotes_uint32), .of (.option ignoresQuotes_checkpointing),
    .of (.option ignoresQuotes_proxy), .of (.option ignoresQuotes_uint32),
    .of ignoresQuotes_logging, List.forall_mem_nil _⟩

namespace Workflow

/-- A workflow is decoded from data as from the document of the data. -/
theorem ignoresQuotes_decode : IgnoresQuotes Workflow.decode := by
  refine .section ?_ _ _ _ []
  simp only [workflowFields, List.forall_mem_cons]
  exact ⟨.of (ignoresQuotes_text _), .of ignoresQuotes_path, .of ignoresQuotes_path,
    .of ignoresQuotes_main, .of ignoresQuotes_rollout, .of ignoresQuotes_training,
    List.forall_mem_nil _⟩

/-! ## Documents of data -/

/-- The workflow of data by way of its document, which is printed and read again. -/
def ofPrinted (v : Value) : Except WorkflowError Workflow :=
  match readNode (render v) with
  | .error e => .error (ofReadError e)
  | .ok (n, _) => decodeDocument n

variable {height : Nat} {v : Value} {es : List (Value × Value)}

/-- The document of a mapping is decoded to the workflow of the mapping. -/
theorem ofPrinted_eq (hne : es ≠ []) (h : IsWritten height (.mapping es))
    (hheight : height ≤ maxDepth) :
    ofPrinted (.mapping es) = decodeDocument (valueNode (.mapping es)) := by
  rw [ofPrinted, readNode_render hne h hheight]
  simp only [decodeDocument, ignoresQuotes_decode (.mapping es)]

/-- Data that is written has no tags. -/
theorem hasNestedTag_of_isWritten (h : IsWritten height v) : v.hasNestedTag = false := by
  have hscalar {v : Value} (h : IsScalar v) : v.hasNestedTag = false := by
    cases h <;> rfl
  induction h with
  | scalar h => exact hscalar h
  | sequence _ ih => exact Value.itemsNestTags_eq_false_iff.mpr ih
  | mapping hkeys _ _ ih =>
    exact Value.entriesNestTags_eq_false_iff.mpr fun e he =>
      ⟨hscalar (hkeys e he).scalar, ih e he⟩

/-- Data is taken like the document that is printed from it and read again. -/
theorem ofValue_eq_ofPrinted (h : IsWritten height v) (hheight : height ≤ maxDepth) :
    ofValue v = checkRequired v >>= fun _ => ofPrinted v := by
  rw [ofValue_eq (hasNestedTag_of_isWritten h)]
  cases hcheck : checkRequired v with
  | error e => rfl
  | ok =>
    -- only a mapping with entries has the required fields
    obtain ⟨es, rfl, hne⟩ : ∃ es, v = .mapping es ∧ es ≠ [] := by
      cases v with
      | mapping es =>
        refine ⟨es, rfl, ?_⟩
        rintro rfl
        cases hcheck
      | _ => cases hcheck
    exact (ofPrinted_eq hne h hheight).symm

/-- The document of data is accepted when the data is, and describes a workflow without
    problems. -/
theorem ofText_render (hne : es ≠ []) (h : IsWritten height (.mapping es))
    (hheight : height ≤ maxDepth) :
    ofText (render (.mapping es)) =
      ofValue (.mapping es) >>= fun w => w.validate >>= fun _ => .ok w := by
  rw [ofValue_eq_ofPrinted h hheight, ofText, ofPrinted, readNode_render hne h hheight,
    bind_assoc]
  rfl

end Workflow

end RunPlan
