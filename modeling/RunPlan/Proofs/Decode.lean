import RunPlan.Proofs.Yaml.Document
import RunPlan.Workflow.Decode
import RunPlan.Workflow.Tree

/-!
# Written sections are decoded back

A section is written as a record whose entries come in the order of the schema, some of
them left out. Decoding takes the entries one by one into the defaults of the section
(`Takes`), which the fields that were left out keep.

## Key results

- `Takes.decodeEntries_eq`: a section is what its entries make of the defaults
- `Workflow.isSection`: a workflow is such a section
-/

namespace RunPlan

open Yaml

/-! ## Single values -/

/-- A written value is decoded, wherever it stands. -/
def Decodes {α : Type} (decode : NodePath → Node → Except SchemaError α) (v : Value) (a : α) :
    Prop :=
  ∀ path, decode path (writtenNode v) = .ok a

/-- A written value is not taken for a missing one. -/
def IsPresent (v : Value) : Prop :=
  isAbsent (writtenNode v).target = false

theorem decodes_string (s : String) : Decodes decodeString (.string s) s := by
  intro path
  rw [writtenNode]
  rfl

theorem decodes_path (p : Path) : Decodes decodePath (.ofPath p) p := by
  intro path
  rw [Value.ofPath, writtenNode]
  rfl

/-- A number in the range of a field. -/
theorem decodes_nat {n largest : Nat} (hn : n ≤ largest) (hlargest : largest < 2 ^ 64)
    (expected : String) : Decodes (decodeNat largest expected) (.int n) n := by
  intro path
  have hread : readUnsigned? (2 ^ 64 - 1) (Numeral.ofNat n).toList = some n := by
    rw [Numeral.ofNat, String.toList_ofList]
    exact readUnsigned?_toDigits (by omega)
  rw [(isAtom_int (by omega)).node, decodeNat]
  simp only [Node.ofPlain, Node.target, if_true, hread, if_pos hn]

theorem decodes_uint32 (n : UInt32) : Decodes decodeUInt32 (.ofUInt32 n) n := by
  intro path
  have hn : n.toNat ≤ 2 ^ 32 - 1 := Nat.le_pred_of_lt n.toNat_lt
  rw [decodeUInt32, Value.ofUInt32, decodes_nat hn (by decide) "u32" path]
  simp

theorem decodes_uint16 (n : UInt16) : Decodes decodeUInt16 (.ofUInt16 n) n := by
  intro path
  have hn : n.toNat ≤ 2 ^ 16 - 1 := Nat.le_pred_of_lt n.toNat_lt
  rw [decodeUInt16, Value.ofUInt16, decodes_nat hn (by decide) "u16" path]
  simp

theorem decodes_float {x : Binary64} (hx : x.isFinite = true) :
    Decodes decodeFloat (.float x) x := by
  intro path
  rw [(isAtom_float hx).node, decodeFloat]
  simp [Node.ofPlain, Node.target, readFloat?_toScientific hx]

/-- A name is decoded to what it names. -/
theorem decodes_variant {α : Type} {ofName? : String → Option α} {name : String} {a : α}
    (h : ofName? name = some a) (known : List String) :
    Decodes (decodeVariant ofName? known) (.string name) a := by
  intro path
  rw [writtenNode, decodeVariant]
  simp [Node.target, tagKind, h]

theorem decodes_level (l : LogLevel) : Decodes decodeLevel (.string l.name) l :=
  decodes_variant (by cases l <;> rfl) _

theorem decodes_mode (m : TrainingMode) : Decodes decodeMode (.string m.name) m :=
  decodes_variant (by cases m <;> rfl) _

/-! ## Optional values -/

/-- A plain scalar with a value other than null is not taken for a missing one. -/
private theorem isAbsent_plain {text : String} {v : Value} (h : plainValue text = some v)
    (hne : v ≠ .null) : isAbsent (.scalar none true text) = false := by
  have hnull : ¬ (text = "" ∨ isNullText text = true) := by
    rw [← plainValue_eq_null_iff, h]
    simpa using hne
  rw [isAbsent, tagKind]
  simpa using hnull

/-- A scalar other than null is not taken for a missing one. -/
theorem isPresent_scalar {v : Value} (h : IsScalar v) (hne : v ≠ .null) : IsPresent v := by
  rcases h.isAtom_or with ⟨text, hatom⟩ | ⟨s, rfl⟩
  · rw [IsPresent, hatom.node]
    exact isAbsent_plain hatom.value hne
  · rw [IsPresent, writtenNode]
    cases hplain : textStyle s == .plain with
    | false => rfl
    | true =>
      have hspec := textStyle_spec s
      rw [eq_of_beq hplain] at hspec
      exact isAbsent_plain hspec.1 (by simp)

/-- An optional value, absence being null. -/
theorem decodes_ofOption {α : Type} {decode : NodePath → Node → Except SchemaError α}
    {f : α → Value} {o : Option α}
    (h : ∀ a ∈ o, Decodes decode (f a) a ∧ IsPresent (f a)) :
    Decodes (decodeOption decode) (.ofOption f o) o := by
  intro path
  cases o with
  | none => rfl
  | some a =>
    obtain ⟨hdecode, hpresent⟩ := h a rfl
    rw [Value.ofOption, decodeOption, hpresent, hdecode path]
    rfl

/-! ## Schedules -/

/-- A written number has no tag, and is an episode. -/
private theorem writtenNode_ofUInt32 (n : UInt32) :
    ∃ text, writtenNode (.ofUInt32 n) = .scalar none true text ∧
      episodeOf? (.scalar none true text) = some n := by
  have hn : n.toNat < 2 ^ 32 := n.toNat_lt
  have hvalue : scalarValue none true (Numeral.ofNat n.toNat) =
      some (.int (.ofNat n.toNat)) := plainValue_ofNat (by omega)
  refine ⟨_, (isAtom_int (by omega)).node, ?_⟩
  simp only [episodeOf?, Node.target, hvalue, if_pos hn, UInt32.ofNat_toNat]

/-- Written numbers have no tags, and are episodes. -/
private theorem writtenItems_ofUInt32 (list : List UInt32) :
    (∀ path i, findTagItems path i (writtenItems (list.map .ofUInt32)) = none) ∧
      (writtenItems (list.map .ofUInt32)).mapM episodeOf? = some list := by
  induction list with
  | nil => exact ⟨fun _ _ => rfl, rfl⟩
  | cons n list ih =>
    obtain ⟨text, hnode, hepisode⟩ := writtenNode_ofUInt32 n
    constructor
    · intro path i
      rw [List.map_cons, writtenItems, findTagItems, hnode, findTag, ih.1]
      rfl
    · rw [List.map_cons, writtenItems, List.mapM_cons, hnode, hepisode, ih.2]
      rfl

/-- A schedule is decoded in the form it was written in. -/
theorem decodes_schedule (s : EvalSchedule) : Decodes decodeSchedule s.toValue s := by
  intro path
  cases s with
  | interval n =>
    obtain ⟨text, hnode, hepisode⟩ := writtenNode_ofUInt32 n
    have htag : findTag path (.scalar none true text) = none := rfl
    have hschedule : scheduleOf? (.scalar none true text) = some (.interval n) := by
      simp only [scheduleOf?, Node.target, hepisode, Option.map_some]
    rw [EvalSchedule.toValue, hnode, decodeSchedule, htag, hschedule]
  | episodes list =>
    obtain ⟨htags, hepisodes⟩ := writtenItems_ofUInt32 list
    have hschedule : scheduleOf? (.sequence none (writtenItems (list.map .ofUInt32))) =
        some (.episodes list) := by
      simp only [scheduleOf?, Node.target, hepisodes, Option.map_some]
    have htag : findTag path (.sequence none (writtenItems (list.map .ofUInt32))) = none := by
      rw [findTag, htags]
      rfl
    rw [EvalSchedule.toValue, writtenNode, decodeSchedule, htag, hschedule]

/-! ## Sections -/

/-- Entries are taken one after the other, each by the field of its name. -/
inductive Takes {α : Type} (fields : List (Field α)) :
    α → List (String × Value) → α → Prop where
  | nil (a : α) : Takes fields a [] a
  | cons {name : String} {field : Field α} {v : Value} {rest : List (String × Value)}
      {a b c : α} (hfind : fields.find? (·.name == name) = some field)
      (hread : ∀ path, field.read path (writtenNode v) a = .ok b)
      (h : Takes fields b rest c) : Takes fields a ((name, v) :: rest) c

variable {α β : Type} {fields : List (Field α)} {a b c : α}
  {entries rest : List (String × Value)}

/-- An entry that replaces one component of a section. -/
theorem Takes.field {name : String} {decode : NodePath → Node → Except SchemaError β}
    {store : α → β → α} {v : Value} {x : β}
    (hfind : fields.find? (·.name == name) = some (.of name decode store))
    (hdecode : Decodes decode v x) (h : Takes fields (store a x) rest c) :
    Takes fields a ((name, v) :: rest) c :=
  .cons hfind (fun path => congrArg (store a <$> ·) (hdecode path)) h

/-- Entries and then more. -/
theorem Takes.append (h : Takes fields a entries b) (h' : Takes fields b rest c) :
    Takes fields a (entries ++ rest) c := by
  induction h with
  | nil => exact h'
  | cons hfind hread _ ih => exact .cons hfind hread (ih h')

/-- An entry that is left out when there is no value. -/
theorem Takes.entryIf {name : String} {decode : NodePath → Node → Except SchemaError β}
    {store : α → Option β → α} {f : β → Value} {o : Option β}
    (hfind : fields.find? (·.name == name) = some (.of name (decodeOption decode) store))
    (hdecode : ∀ x ∈ o, Decodes decode (f x) x ∧ IsPresent (f x))
    (hdefault : store a none = a) :
    Takes fields a (Value.entryIf name f o) (store a o) := by
  cases o with
  | none =>
    rw [hdefault]
    exact .nil a
  | some x =>
    have h : Decodes (decodeOption decode) (.ofOption f (some x)) (some x) :=
      decodes_ofOption hdecode
    exact .field hfind h (.nil _)

/-- Taking entries is decoding them, where no name comes twice. -/
theorem Takes.decodeEntries_eq (h : Takes fields a entries c) (path : NodePath)
    {seen : List String} (hseen : ∀ name ∈ seen, name ∉ entries.map Prod.fst)
    (hdistinct : (entries.map Prod.fst).Nodup) :
    decodeEntries fields path seen a (entries.map entryNode) =
      .ok ((entries.map Prod.fst).reverse ++ seen, c) := by
  induction h generalizing seen with
  | nil => rfl
  | @cons name field v rest a b c hfind hread _ ih =>
    rw [List.map_cons, List.nodup_cons] at hdistinct
    have hnew : seen.contains name = false := by
      rw [List.contains_eq_mem, decide_eq_false_iff_not]
      intro hmem
      exact hseen name hmem (by simp)
    have hseen' : ∀ other ∈ name :: seen, other ∉ rest.map Prod.fst := by
      intro other hother hmem
      rcases List.mem_cons.mp hother with rfl | hother
      · exact hdistinct.1 hmem
      · exact hseen other hother (List.mem_cons_of_mem _ hmem)
    have hrest := ih hseen' hdistinct.2
    have hname : fieldName path (.ofPlain name) = .ok name := rfl
    have hstep : (Node.ofPlain name).step = .key name := rfl
    rw [List.map_cons, entryNode, decodeEntries]
    simp only [hname, hfind, hnew, hstep, hread, bind, Except.bind, Bool.false_eq_true, if_false,
      hrest]
    simp

/-- A schema can be written: its names can be keys, and no name comes twice. -/
structure IsSchema {α : Type} (fields : List (Field α)) : Prop where
  distinct : (fields.map (·.name)).Nodup
  names : (fields.map (·.name)).all isFieldName = true

/-- Entries in the order of a schema that make a section out of its defaults. -/
structure IsSection {α : Type} (fields : List (Field α)) (height : Nat)
    (entries : List (String × Value)) (start a : α) : Prop where
  schema : IsSchema fields
  order : (entries.map Prod.fst).Sublist (fields.map (·.name))
  values : ∀ entry ∈ entries, IsWritten height entry.2
  takes : Takes fields start entries a

variable {height : Nat} {start : α}

/-- The names of entries can be keys. -/
theorem IsSection.names (h : IsSection fields height entries start a) :
    ∀ entry ∈ entries, IsFieldName entry.1 := by
  intro entry hentry
  have hall := h.schema.names
  rw [List.all_eq_true] at hall
  exact isFieldName_spec (hall _ (h.order.subset (List.mem_map_of_mem hentry)))

/-- No entry comes twice. -/
theorem IsSection.distinct (h : IsSection fields height entries start a) :
    (entries.map Prod.fst).Nodup :=
  h.order.nodup h.schema.distinct

/-- A section is part of a document. -/
theorem IsSection.isWritten (h : IsSection fields height entries start a) :
    IsWritten (height + 1) (.record entries) :=
  .record h.names h.distinct h.values

/-- A section is not taken for a missing one. -/
theorem IsSection.isPresent (h : IsSection fields height entries start a) :
    IsPresent (.record entries) := by
  rw [IsPresent, writtenNode_record h.names]
  rfl

/-- A section is what its entries make of the defaults. -/
theorem IsSection.decodes (h : IsSection fields height entries start a) (title : String)
    {required : List String} (hrequired : required ⊆ entries.map Prod.fst) :
    Decodes (decodeSection title fields required start) (.record entries) a := by
  intro path
  have hentries := h.takes.decodeEntries_eq path (List.forall_mem_nil _) h.distinct
  have hmissing : required.find?
      (!((entries.map Prod.fst).reverse ++ []).contains ·) = none := by
    rw [List.find?_eq_none]
    intro name hname
    simpa using hrequired hname
  rw [writtenNode_record h.names, decodeSection]
  simp only [Node.target, bind, Except.bind, hentries, hmissing]

/-! ## Parts of sections -/

/-- An entry that is left out when there is no value keeps its place in the order. -/
theorem map_fst_entryIf (name : String) (f : β → Value) (o : Option β) :
    ((Value.entryIf name f o).map Prod.fst).Sublist [name] := by
  cases o with
  | none => exact List.nil_sublist _
  | some x => exact .refl _

/-- An entry that is left out when there is no value is part of a document. -/
theorem isWritten_entryIf {name : String} {f : β → Value} {o : Option β}
    (h : ∀ x ∈ o, IsWritten height (f x)) :
    ∀ entry ∈ Value.entryIf name f o, IsWritten height entry.2 := by
  cases o with
  | none => simp [Value.entryIf]
  | some x => simpa [Value.entryIf] using h x rfl

theorem isScalar_uint32 (n : UInt32) : IsScalar (.ofUInt32 n) :=
  .ofNat (Nat.lt_trans n.toNat_lt (by decide))

theorem isScalar_uint16 (n : UInt16) : IsScalar (.ofUInt16 n) :=
  .ofNat (Nat.lt_trans n.toNat_lt (by decide))

/-- An optional value is part of a document when the value is. -/
theorem isWritten_ofOption {f : β → Value} {o : Option β}
    (h : ∀ x ∈ o, IsWritten height (f x)) : IsWritten height (.ofOption f o) := by
  cases o with
  | none => exact .scalar .null
  | some x => exact h x rfl

theorem decodes_uint32? (o : Option UInt32) :
    Decodes (decodeOption decodeUInt32) (.ofOption .ofUInt32 o) o :=
  decodes_ofOption fun n _ => ⟨decodes_uint32 n, isPresent_scalar (isScalar_uint32 n) nofun⟩

theorem isWritten_uint32? (o : Option UInt32) :
    IsWritten height (.ofOption .ofUInt32 o) :=
  isWritten_ofOption fun n _ => .scalar (isScalar_uint32 n)

/-- A schedule is part of a document. -/
theorem EvalSchedule.isWritten (s : EvalSchedule) : IsWritten (height + 1) s.toValue := by
  cases s with
  | interval n => exact .scalar (isScalar_uint32 n)
  | episodes list =>
    refine .sequence fun v hv => ?_
    obtain ⟨n, -, rfl⟩ := List.mem_map.mp hv
    exact .scalar (isScalar_uint32 n)

/-- A schedule is not taken for a missing one. -/
theorem EvalSchedule.isPresent (s : EvalSchedule) : IsPresent s.toValue := by
  cases s with
  | interval n => exact isPresent_scalar (isScalar_uint32 n) nofun
  | episodes list =>
    rw [IsPresent, EvalSchedule.toValue, writtenNode]
    rfl

/-! ## The sections of a workflow -/

theorem Logging.isSection (l : Logging) :
    IsSection loggingFields 0
      [("stdout", .string l.stdout.name), ("file", .string l.file.name)] {} l where
  schema := ⟨by decide, by decide⟩
  order := .refl _
  values := by
    simpa using ⟨.scalar (.string _), .scalar (.string _)⟩
  takes := .field rfl (decodes_level _) (.field rfl (decodes_level _) (.nil _))

theorem Logging.decodes (l : Logging) : Decodes decodeLogging l.toValue l :=
  l.isSection.decodes _ (List.nil_subset _)

theorem MainSection.isSection (m : MainSection) :
    IsSection mainFields 1 [
      ("num_episodes", .ofOption .ofUInt32 m.numEpisodes),
      ("num_steps", .ofOption .ofUInt32 m.numSteps),
      ("eval_schedule", .ofOption EvalSchedule.toValue m.evalSchedule),
      ("logging", m.logging.toValue)] {} m where
  schema := ⟨by decide, by decide⟩
  order := .refl _
  values := by
    have hschedule : IsWritten 1 (.ofOption EvalSchedule.toValue m.evalSchedule) :=
      isWritten_ofOption fun s _ => s.isWritten
    simpa using ⟨isWritten_uint32? _, isWritten_uint32? _, hschedule, m.logging.isSection.isWritten⟩
  takes :=
    .field rfl (decodes_uint32? _) <|
    .field rfl (decodes_uint32? _) <|
    .field rfl (decodes_ofOption fun s _ => ⟨decodes_schedule s, s.isPresent⟩) <|
    .field rfl m.logging.decodes (.nil _)

theorem Controller.isSection (c : Controller) :
    IsSection controllerFields 0 [("host", .string c.host), ("port", .ofUInt16 c.port)]
      ⟨"", 0⟩ c where
  schema := ⟨by decide, by decide⟩
  order := .refl _
  values := by
    simpa using ⟨.scalar (.string _), .scalar (isScalar_uint16 _)⟩
  takes := .field rfl (decodes_string _) (.field rfl (decodes_uint16 _) (.nil _))

theorem Controller.decodes (c : Controller) : Decodes decodeController c.toValue c :=
  c.isSection.decodes _ (List.Subset.refl _)

theorem Parallelism.isSection {p : Parallelism}
    (h : ∀ x ∈ p.graceFactor, x.isFinite = true) :
    IsSection parallelismFields 1 [
      ("sampling", .ofUInt32 p.sampling),
      ("eval", .ofOption .ofUInt32 p.eval),
      ("min_env_samples", .ofOption .ofUInt32 p.minEnvSamples),
      ("grace_factor", .ofOption .float p.graceFactor),
      ("controller", .ofOption Controller.toValue p.controller)] {} p where
  schema := ⟨by decide, by decide⟩
  order := .refl _
  values := by
    have hgrace : IsWritten 1 (.ofOption .float p.graceFactor) :=
      isWritten_ofOption fun x hx => .scalar (.ofFinite (h x hx))
    have hcontroller : IsWritten 1 (.ofOption Controller.toValue p.controller) :=
      isWritten_ofOption fun c _ => c.isSection.isWritten
    simpa using ⟨.scalar (isScalar_uint32 _), isWritten_uint32? _, isWritten_uint32? _, hgrace,
      hcontroller⟩
  takes :=
    .field rfl (decodes_uint32 _) <|
    .field rfl (decodes_uint32? _) <|
    .field rfl (decodes_uint32? _) <|
    .field rfl (decodes_ofOption fun x hx =>
      ⟨decodes_float (h x hx), isPresent_scalar (.ofFinite (h x hx)) nofun⟩) <|
    .field rfl (decodes_ofOption fun c _ => ⟨c.decodes, c.isSection.isPresent⟩) (.nil _)

theorem Parallelism.decodes {p : Parallelism} (h : ∀ x ∈ p.graceFactor, x.isFinite = true) :
    Decodes decodeParallelism p.toValue p :=
  (Parallelism.isSection h).decodes _ (List.nil_subset _)

theorem RolloutSection.isSection {r : RolloutSection}
    (h : ∀ p ∈ r.parallelism, ∀ x ∈ p.graceFactor, x.isFinite = true) :
    IsSection rolloutFields 2
      (Value.entryIf "parallelism" Parallelism.toValue r.parallelism ++
        [("logging", r.logging.toValue)]) {} r where
  schema := ⟨by decide, by decide⟩
  order := by
    rw [List.map_append]
    exact (map_fst_entryIf _ _ _).append (.refl ["logging"])
  values := by
    rw [List.forall_mem_append]
    have hlogging : IsWritten 2 r.logging.toValue :=
      r.logging.isSection.isWritten.mono (by decide)
    exact ⟨isWritten_entryIf fun p hp => (Parallelism.isSection (h p hp)).isWritten,
      by simpa using hlogging⟩
  takes :=
    (Takes.entryIf rfl (fun p hp =>
      ⟨Parallelism.decodes (h p hp), (Parallelism.isSection (h p hp)).isPresent⟩) rfl).append <|
    .field rfl r.logging.decodes (.nil _)

theorem Checkpointing.isSection (c : Checkpointing) :
    IsSection checkpointingFields 0 [("path", .ofPath c.path), ("interval", .ofUInt32 c.interval)]
      ⟨⟨""⟩, 0⟩ c where
  schema := ⟨by decide, by decide⟩
  order := .refl _
  values := by
    simpa using ⟨.scalar (.string _), .scalar (isScalar_uint32 _)⟩
  takes := .field rfl (decodes_path _) (.field rfl (decodes_uint32 _) (.nil _))

theorem Checkpointing.decodes (c : Checkpointing) : Decodes decodeCheckpointing c.toValue c :=
  c.isSection.decodes _ (List.Subset.refl _)

theorem Proxy.isSection (p : Proxy) :
    IsSection proxyFields 0 [
      ("host", .string p.host), ("frontend", .ofUInt16 p.frontend),
      ("backend", .ofUInt16 p.backend)] ⟨"", 0, 0⟩ p where
  schema := ⟨by decide, by decide⟩
  order := .refl _
  values := by
    simpa using ⟨.scalar (.string _), .scalar (isScalar_uint16 _), .scalar (isScalar_uint16 _)⟩
  takes :=
    .field rfl (decodes_string _) <|
    .field rfl (decodes_uint16 _) <|
    .field rfl (decodes_uint16 _) (.nil _)

theorem Proxy.decodes (p : Proxy) : Decodes decodeProxy p.toValue p :=
  p.isSection.decodes _ (List.Subset.refl _)

/-- The entries of a `training` section. -/
def TrainingSection.written (t : TrainingSection) : List (String × Value) :=
  [ ("mode", .string t.mode.name),
    ("load_path", .ofOption .ofPath t.loadPath),
    ("load_episode", .ofOption .ofUInt32 t.loadEpisode)] ++
  Value.entryIf "checkpointing" Checkpointing.toValue t.checkpointing ++
  Value.entryIf "proxy" Proxy.toValue t.proxy ++
  Value.entryIf "num_workers" .ofUInt32 t.numWorkers ++
  [("logging", t.logging.toValue)]

theorem TrainingSection.isSection (t : TrainingSection) :
    IsSection trainingFields 1 t.written {} t where
  schema := ⟨by decide, by decide⟩
  order := by
    simp only [written, List.map_append]
    exact (((List.Sublist.refl ["mode", "load_path", "load_episode"]).append
      (map_fst_entryIf _ _ _)).append (map_fst_entryIf _ _ _)).append
        (map_fst_entryIf _ _ _) |>.append (.refl ["logging"])
  values := by
    have hload : IsWritten 1 (.ofOption .ofPath t.loadPath) :=
      isWritten_ofOption fun p _ => .scalar (.string p.text)
    have hlogging : IsWritten 1 t.logging.toValue := t.logging.isSection.isWritten
    simp only [written, List.forall_mem_append]
    refine ⟨⟨⟨⟨?_, isWritten_entryIf fun c _ => c.isSection.isWritten⟩,
      isWritten_entryIf fun p _ => p.isSection.isWritten⟩,
      isWritten_entryIf fun n _ => .scalar (isScalar_uint32 n)⟩, ?_⟩
    · simpa using ⟨.scalar (.string _), hload, isWritten_uint32? _⟩
    · simpa using hlogging
  takes :=
    have hfields : Takes trainingFields {} [
        ("mode", .string t.mode.name),
        ("load_path", .ofOption .ofPath t.loadPath),
        ("load_episode", .ofOption .ofUInt32 t.loadEpisode)]
        { mode := t.mode, loadPath := t.loadPath, loadEpisode := t.loadEpisode } :=
      .field rfl (decodes_mode _) <|
      .field rfl (decodes_ofOption fun p _ =>
        ⟨decodes_path p, isPresent_scalar (.string p.text) nofun⟩) <|
      .field rfl (decodes_uint32? _) (.nil _)
    -- an entry that is left out leaves the default, which is that there is no value
    have hcheckpointing := hfields.append <|
      Takes.entryIf rfl (fun c _ => ⟨c.decodes, c.isSection.isPresent⟩) rfl
    have hproxy := hcheckpointing.append <|
      Takes.entryIf rfl (fun p _ => ⟨p.decodes, p.isSection.isPresent⟩) rfl
    have hworkers := hproxy.append <|
      Takes.entryIf rfl (fun n _ =>
        ⟨decodes_uint32 n, isPresent_scalar (isScalar_uint32 n) nofun⟩) rfl
    hworkers.append (.field rfl t.logging.decodes (.nil _))

theorem Workflow.isSection {w : Workflow}
    (hgrace : ∀ p ∈ w.rollout.parallelism, ∀ x ∈ p.graceFactor, x.isFinite = true) :
    IsSection workflowFields 3 [
      ("job", .string w.job),
      ("scenario_path", .ofPath w.scenarioPath),
      ("log_path", .ofPath w.logPath),
      ("main", w.main.toValue),
      ("rollout", w.rollout.toValue),
      ("training", w.training.toValue)] (.minimal "" ⟨""⟩ ⟨""⟩) w where
  schema := ⟨by decide, by decide⟩
  order := .refl _
  values := by
    have hmain := w.main.isSection.isWritten.mono (show 2 ≤ 3 by decide)
    have hrollout := (RolloutSection.isSection hgrace).isWritten
    have htraining := w.training.isSection.isWritten.mono (show 2 ≤ 3 by decide)
    simpa using ⟨.scalar (.string _), .scalar (.string _), .scalar (.string _), hmain, hrollout,
      htraining⟩
  takes :=
    .field rfl (decodes_string _) <|
    .field rfl (decodes_path _) <|
    .field rfl (decodes_path _) <|
    .field rfl (w.main.isSection.decodes _ (List.nil_subset _)) <|
    .field rfl ((RolloutSection.isSection hgrace).decodes _ (List.nil_subset _)) <|
    .field rfl (w.training.isSection.decodes _ (List.nil_subset _)) (.nil _)

end RunPlan
