import RunPlan.Proofs.Entries

/-!
# Nulls in sections

A null says that a field is absent, so that a section without the field should be read alike.
It is, except where a text is expected: a null is taken for the text it is written with, so
that the field is there when it is null and missing when it is not written. `HandlesNull` says
this of a decoder, and follows for a section from its parts.

## Key results

- `handlesNull_section`: what a section makes of nulls, from what its parts make of them
- `handlesNull_workflow`: what a document makes of nulls
-/

namespace RunPlan

open Yaml

/-! ## Losing a null -/

/-- A null that is written out, and not just left blank. -/
def Yaml.Node.IsNull (n : Node) : Prop :=
  ∃ text, n.target = .scalar none true text ∧ isNullText text = true

/-- A document loses the field at a path of names, where it has null. What is left of a
    mapping without other fields is the empty mapping. -/
inductive Yaml.Node.DropsNull : List String → Node → Node → Prop where
  | field {tag : Option String} {before after : List (Node × Node)} {key n : Node}
      {name : String} (hkey : key.Names name) (hnull : n.IsNull) :
      DropsNull [name] (.mapping tag (before ++ (key, n) :: after)) (.mapping tag (before ++ after))
  | within {tag : Option String} {before after : List (Node × Node)} {key n n' : Node}
      {name : String} {names : List String} (hkey : key.Names name)
      (h : DropsNull names n n') :
      DropsNull (name :: names) (.mapping tag (before ++ (key, n) :: after))
        (.mapping tag (before ++ (key, n') :: after))

/-- Data loses the field at a path of names, where it has null. -/
inductive Value.DropsNull : List String → Value → Value → Prop where
  | field {before after : List (Value × Value)} {name : String} :
      DropsNull [name] (.mapping (before ++ (.string name, .null) :: after))
        (.mapping (before ++ after))
  | within {before after : List (Value × Value)} {v v' : Value} {name : String}
      {names : List String} (h : DropsNull names v v') :
      DropsNull (name :: names) (.mapping (before ++ (.string name, v) :: after))
        (.mapping (before ++ (.string name, v') :: after))

/-- The entries of two mappings in a row. -/
theorem entryNodes_append (es fs : List (Value × Value)) :
    entryNodes (es ++ fs) = entryNodes es ++ entryNodes fs := by
  induction es with
  | nil => rfl
  | cons e es ih =>
    show (valueNode e.1, valueNode e.2) :: entryNodes (es ++ fs) = _
    rw [ih]
    rfl

/-- Data loses a null like the document that is printed from it. -/
theorem Value.DropsNull.valueNode {names : List String} {v v' : Value}
    (h : v.DropsNull names v') : (valueNode v).DropsNull names (valueNode v') := by
  induction h with
  | @field before after name =>
    show Node.DropsNull _ (.mapping none (entryNodes _)) (.mapping none (entryNodes _))
    rw [entryNodes_append, entryNodes_append]
    exact .field ⟨none, false, rfl⟩ ⟨"null", rfl, rfl⟩
  | @within before after v v' name names h ih =>
    show Node.DropsNull _ (.mapping none (entryNodes _)) (.mapping none (entryNodes _))
    rw [entryNodes_append, entryNodes_append]
    exact .within ⟨none, false, rfl⟩ ih

variable {α β : Type} {parts : List (Part α)}

/-! ## What is made of nulls -/

/-- The fields below the sections whose null is taken for a text. -/
def nullTexts : List (List String) := [
  ["rollout", "parallelism", "controller", "host"],
  ["training", "checkpointing", "path"],
  ["training", "proxy", "host"]]

/-- All fields whose null is taken for a text by the schema alone. -/
def textFields : List (List String) :=
  requiredFields.map ([·]) ++ nullTexts

/-- How a decoder of what stands at a path of names takes the loss of a null: nothing
    changes, unless the null is one that was taken for a text. Then there must be a text. -/
structure HandlesNull (decode : NodePath → Node → Except SchemaError β)
    (here : List String) : Prop where
  kept {names : List String} {n n' : Node} (h : n.DropsNull names n') {path : NodePath} {b : β}
    (hdecode : decode path n = .ok b) (hnames : here ++ names ∉ textFields) :
    decode path n' = .ok b
  lost {names : List String} {n n' : Node} (h : n.DropsNull names n') {path : NodePath} {b : β}
    (hdecode : decode path n = .ok b) (hnames : here ++ names ∈ textFields) (b' : β) :
    decode path n' ≠ .ok b'

/-- What a section of which a part has null makes of it: the part is what it was from the
    start and is not needed, or is needed and takes the null for a text. -/
structure Part.HandlesNull (p : Part α) (here required : List String) (start : α) : Prop where
  within : RunPlan.HandlesNull p.shape.decode (here ++ [p.name])
  null {n : Node} (hn : n.IsNull) {path : NodePath} {x : p.β}
    (hx : p.shape.decode path n = .ok x) :
    (x = p.get start ∧ p.name ∉ required ∧ here ++ [p.name] ∉ textFields) ∨
      (p.name ∈ required ∧ here ++ [p.name] ∈ textFields)

/-- What a section makes of nulls is what its parts make of them. -/
private theorem handlesNull_decodeSection (hparts : IsPartition parts) (title : String)
    {here required : List String} {start : α}
    (h : ∀ p ∈ parts, p.HandlesNull here required start) :
    HandlesNull (decodeSection title (parts.map Part.field) required start) here where
  kept {names n n'} hdrop path b hdecode hnames := by
    cases hdrop with
    | field hkey hnull =>
      obtain ⟨seen, a, hbefore, p, hp, rfl, hnew, x, hx, names, hafter, hrequired⟩ :=
        (decodeSection_entry_iff hparts hkey).mp hdecode
      cases (h p hp).null hnull hx with
      | inr htext => exact absurd htext.2 hnames
      | inl hstart =>
        obtain ⟨hvalue, hoptional, -⟩ := hstart
        -- the part is what it was before the entry, so that the entry stores nothing new
        have hsame : p.store a x = a := by
          rw [hvalue, ← get_eq_of_decodeEntries hparts hp hbefore hnew]
          exact store_get_eq hparts hp a
        obtain ⟨new, rfl, -, hless⟩ := exists_names_of_decodeEntries hparts hafter
        rw [hsame] at hless
        apply decodeSection_append_iff.mpr
        refine ⟨seen, a, hbefore, new ++ seen, hless seen (List.subset_cons_self _ seen), ?_⟩
        intro name hname
        have hne : name ≠ p.name := fun heq => hoptional (heq ▸ hname)
        simpa [hne] using hrequired hname
    | within hkey hdrop =>
      obtain ⟨seen, a, hbefore, p, hp, rfl, hnew, x, hx, hafter⟩ :=
        (decodeSection_entry_iff hparts hkey).mp hdecode
      -- the part below is read as before, and nothing else has changed
      have hx' := (h p hp).within.kept hdrop hx (by simpa using hnames)
      exact (decodeSection_entry_iff hparts hkey).mpr
        ⟨seen, a, hbefore, p, hp, rfl, hnew, x, hx', hafter⟩
  lost {names n n'} hdrop path b hdecode hnames b' hdecode' := by
    cases hdrop with
    | field hkey hnull =>
      obtain ⟨seen, a, hbefore, p, hp, rfl, hnew, x, hx, names, hafter, -⟩ :=
        (decodeSection_entry_iff hparts hkey).mp hdecode
      obtain ⟨seen', a', hbefore', names', hafter', hrequired⟩ :=
        decodeSection_append_iff.mp hdecode'
      cases hbefore.symm.trans hbefore'
      cases (h p hp).null hnull hx with
      | inl hstart => exact hstart.2.2 hnames
      | inr htext =>
        -- neither before nor after the entry is the part named again
        obtain ⟨new, rfl, hfresh, hless⟩ := exists_names_of_decodeEntries hparts hafter
        have hmem := hrequired htext.1
        rw [← names_unique hparts (hless seen (List.subset_cons_self _ seen)) hafter'] at hmem
        cases List.mem_append.mp hmem with
        | inl hmem => exact hfresh _ hmem List.mem_cons_self
        | inr hmem => exact hnew hmem
    | within hkey hdrop =>
      obtain ⟨seen, a, hbefore, p, hp, rfl, hnew, x, hx, hafter⟩ :=
        (decodeSection_entry_iff hparts hkey).mp hdecode
      obtain ⟨seen', a', hbefore', q, hq, hname, hnew', x', hx', hafter'⟩ :=
        (decodeSection_entry_iff hparts hkey).mp hdecode'
      -- the part below would have to be read
      obtain rfl : q = p := List.inj_on_of_nodup_map hparts.distinct hq hp hname
      exact (h q hp).within.lost hdrop hx (by simpa using hnames) x' hx'

theorem handlesNull_section {title : String} {here required : List String} {start : α}
    {hparts : IsPartition parts} (h : parts.Forall (·.HandlesNull here required start)) :
    HandlesNull (Shape.ofParts title required start hparts).decode here :=
  handlesNull_decodeSection hparts title (List.forall_iff_forall_mem.mp h)

/-! ### Parts -/

/-- Nothing is taken from a mapping, so that there is no null to lose. -/
def RefusesMappings (decode : NodePath → Node → Except SchemaError β) : Prop :=
  ∀ path tag entries b, decode path (.mapping tag entries) ≠ .ok b

/-- Null is not taken. -/
def RefusesNull (decode : NodePath → Node → Except SchemaError β) : Prop :=
  ∀ path n b, n.IsNull → decode path n ≠ .ok b

variable {decode : NodePath → Node → Except SchemaError β} {here : List String}

/-- A document that loses a null is a mapping, also afterwards. -/
theorem Yaml.Node.DropsNull.isMapping {names : List String} {n n' : Node}
    (h : n.DropsNull names n') :
    (∃ tag entries, n = .mapping tag entries) ∧ ∃ tag entries, n' = .mapping tag entries := by
  cases h with
  | field => exact ⟨⟨_, _, rfl⟩, ⟨_, _, rfl⟩⟩
  | within => exact ⟨⟨_, _, rfl⟩, ⟨_, _, rfl⟩⟩

theorem RefusesMappings.handlesNull (h : RefusesMappings decode) (here : List String) :
    HandlesNull decode here where
  kept hdrop path b hdecode := by
    obtain ⟨tag, entries, rfl⟩ := hdrop.isMapping.1
    exact absurd hdecode (h path tag entries b)
  lost hdrop path b hdecode := by
    obtain ⟨tag, entries, rfl⟩ := hdrop.isMapping.1
    exact absurd hdecode (h path tag entries b)

theorem HandlesNull.optional (h : HandlesNull decode here) :
    HandlesNull (decodeOption decode) here where
  kept hdrop path b hdecode hnames := by
    obtain ⟨⟨tag, entries, rfl⟩, tag', entries', rfl⟩ := hdrop.isMapping
    obtain ⟨x, hx, rfl⟩ := map_eq_ok_iff.mp hdecode
    exact map_eq_ok_iff.mpr ⟨x, h.kept hdrop hx hnames, rfl⟩
  lost hdrop path b hdecode hnames b' hdecode' := by
    obtain ⟨⟨tag, entries, rfl⟩, tag', entries', rfl⟩ := hdrop.isMapping
    obtain ⟨x, hx, rfl⟩ := map_eq_ok_iff.mp hdecode
    obtain ⟨x', hx', rfl⟩ := map_eq_ok_iff.mp hdecode'
    exact h.lost hdrop hx hnames x' hx'

/-- Null is the absence of an optional value. -/
theorem decodeOption_null {n : Node} (hn : n.IsNull) (path : NodePath) :
    decodeOption decode path n = .ok none := by
  obtain ⟨text, htarget, hnull⟩ := hn
  unfold decodeOption
  rw [htarget, isAbsent, if_pos (by simp [tagKind, hnull])]

section

variable {there required : List String} {start : α} {name : String}

/-- An optional part that is absent from the start. -/
theorem Part.handlesNull_optional {shape : Shape β} {get : α → Option β}
    {store : α → Option β → α} {get_store : ∀ a b, get (store a b) = b}
    (h : RunPlan.HandlesNull shape.decode there) (hthere : here ++ [name] = there)
    (hstart : get start = none) (hname : name ∉ required) (htext : there ∉ textFields) :
    Part.HandlesNull ⟨_, name, shape.optional, get, store, get_store⟩ here required start where
  within := hthere ▸ h.optional
  null hn path x hx := by
    left
    refine ⟨?_, hname, hthere ▸ htext⟩
    have hnone : (.ok none : Except SchemaError (Option β)) = .ok x :=
      (decodeOption_null hn path).symm.trans hx
    rw [← Except.ok.inj hnone]
    exact hstart.symm

variable {shape : Shape β} {get : α → β} {store : α → β → α}
  {get_store : ∀ a b, get (store a b) = b}

/-- A part that does not take null. -/
theorem Part.handlesNull_of_refusesNull (h : RunPlan.HandlesNull shape.decode there)
    (hthere : here ++ [name] = there) (hnull : RefusesNull shape.decode) :
    Part.HandlesNull ⟨_, name, shape, get, store, get_store⟩ here required start where
  within := hthere ▸ h
  null hn path x hx := absurd hx (hnull path _ x hn)

/-- A part that is a text, and needed. -/
theorem Part.handlesNull_text (h : RefusesMappings shape.decode) (hname : name ∈ required)
    (htext : here ++ [name] ∈ textFields) :
    Part.HandlesNull ⟨_, name, shape, get, store, get_store⟩ here required start where
  within := h.handlesNull _
  null _ _ _ _ := Or.inr ⟨hname, htext⟩

end

/-! ### Scalars and schedules -/

theorem refusesMappings_text : RefusesMappings textShape.decode :=
  fun _ _ _ _ => nofun

theorem refusesMappings_path : RefusesMappings pathShape.decode :=
  fun _ _ _ _ => nofun

theorem refusesMappings_count : RefusesMappings countShape.decode :=
  fun _ _ _ _ => nofun

theorem refusesMappings_port : RefusesMappings portShape.decode :=
  fun _ _ _ _ => nofun

theorem refusesMappings_number : RefusesMappings numberShape.decode :=
  fun _ _ _ _ => nofun

/-- A mapping is no name, also when its tag is one. -/
theorem refusesMappings_variant (ofName? : String → Option β) (known : List String) :
    RefusesMappings (decodeVariant ofName? known) := by
  intro path tag entries b hdecode
  simp only [decodeVariant, Node.target] at hdecode
  split at hdecode
  · obtain ⟨_, -, hunit⟩ := bind_eq_ok_iff.mp hdecode
    cases hunit
  · cases hdecode

theorem refusesMappings_schedule : RefusesMappings scheduleShape.decode := by
  intro path tag entries s hdecode
  have hform : scheduleOf? (.mapping tag entries) = none := rfl
  simp only [scheduleShape, decodeSchedule, hform] at hdecode
  split at hdecode
  · cases hdecode
  · cases hdecode

/-- The spellings of null. -/
private theorem eq_of_isNullText {text : String} (h : isNullText text = true) :
    text = "null" ∨ text = "Null" ∨ text = "NULL" ∨ text = "~" := by
  simpa [isNullText, or_assoc] using h

/-- No number is spelled like null. -/
private theorem refusesNull_nat (largest : Nat) (expected : String) :
    RefusesNull (decodeNat largest expected) := by
  intro path n k ⟨text, htarget, hnull⟩ hdecode
  -- each spelling starts with a letter or a tilde
  have hread : readUnsigned? (2 ^ 64 - 1) text.toList = none := by
    obtain rfl | rfl | rfl | rfl := eq_of_isNullText hnull <;> decide
  simp only [decodeNat, htarget, if_true, hread] at hdecode
  cases hdecode

theorem refusesNull_count : RefusesNull countShape.decode := by
  intro path n k hnull hdecode
  obtain ⟨k, hk, -⟩ := map_eq_ok_iff.mp hdecode
  exact refusesNull_nat _ _ path n k hnull hk

theorem refusesNull_port : RefusesNull portShape.decode := by
  intro path n k hnull hdecode
  obtain ⟨k, hk, -⟩ := map_eq_ok_iff.mp hdecode
  exact refusesNull_nat _ _ path n k hnull hk

/-- Names are not spelled like null. -/
theorem refusesNull_variant {ofName? : String → Option β} {known : List String}
    (h : ∀ text ∈ ["null", "Null", "NULL", "~"], ofName? text = none) :
    RefusesNull (decodeVariant ofName? known) := by
  intro path n b ⟨text, htarget, hnull⟩ hdecode
  have hname : ofName? text = none := h text (by simpa using eq_of_isNullText hnull)
  simp only [decodeVariant, htarget, tagKind, hname] at hdecode
  cases hdecode

/-- A section is blank or a mapping, but not null. -/
theorem refusesNull_section {title : String} {required : List String} {start : α}
    {hparts : IsPartition parts} :
    RefusesNull (Shape.ofParts title required start hparts).decode := by
  intro path n b ⟨text, htarget, hnull⟩ hdecode
  -- what is written out is not blank
  have hblank : text ≠ "" := by
    rintro rfl
    exact Bool.noConfusion hnull
  change decodeSection title _ required start path n = .ok b at hdecode
  unfold decodeSection at hdecode
  rw [htarget] at hdecode
  simp only [Bool.true_and, beq_iff_eq, hblank, if_false] at hdecode
  cases hdecode

/-! ### The sections of a workflow -/

theorem handlesNull_logging (here : List String) : HandlesNull loggingShape.decode here := by
  have hlevel : RefusesNull levelShape.decode := refusesNull_variant (by decide)
  have hmappings : RefusesMappings levelShape.decode := refusesMappings_variant _ _
  unfold loggingShape
  apply handlesNull_section
  constructor
  · exact Part.handlesNull_of_refusesNull (hmappings.handlesNull _) rfl hlevel
  · exact Part.handlesNull_of_refusesNull (hmappings.handlesNull _) rfl hlevel

theorem handlesNull_main : HandlesNull mainShape.decode ["main"] := by
  have hcount := refusesMappings_count.handlesNull
  have hschedule := refusesMappings_schedule.handlesNull
  unfold mainShape
  apply handlesNull_section
  refine ⟨?numEpisodes, ?numSteps, ?evalSchedule, ?logging⟩
  case numEpisodes => exact Part.handlesNull_optional (hcount _) rfl rfl (by decide) (by decide)
  case numSteps => exact Part.handlesNull_optional (hcount _) rfl rfl (by decide) (by decide)
  case evalSchedule =>
    exact Part.handlesNull_optional (hschedule _) rfl rfl (by decide) (by decide)
  case logging =>
    exact Part.handlesNull_of_refusesNull (handlesNull_logging _) rfl refusesNull_section

theorem handlesNull_controller :
    HandlesNull controllerShape.decode ["rollout", "parallelism", "controller"] := by
  have hport := refusesMappings_port.handlesNull
  unfold controllerShape
  apply handlesNull_section
  refine ⟨?host, ?port⟩
  case host => exact Part.handlesNull_text refusesMappings_text (by decide) (by decide)
  case port => exact Part.handlesNull_of_refusesNull (hport _) rfl refusesNull_port

theorem handlesNull_parallelism :
    HandlesNull parallelismShape.decode ["rollout", "parallelism"] := by
  have hcount := refusesMappings_count.handlesNull
  have hnumber := refusesMappings_number.handlesNull
  unfold parallelismShape
  apply handlesNull_section
  refine ⟨?sampling, ?eval, ?minEnvSamples, ?graceFactor, ?controller⟩
  case sampling => exact Part.handlesNull_of_refusesNull (hcount _) rfl refusesNull_count
  case eval => exact Part.handlesNull_optional (hcount _) rfl rfl (by decide) (by decide)
  case minEnvSamples => exact Part.handlesNull_optional (hcount _) rfl rfl (by decide) (by decide)
  case graceFactor => exact Part.handlesNull_optional (hnumber _) rfl rfl (by decide) (by decide)
  case controller =>
    exact Part.handlesNull_optional handlesNull_controller rfl rfl (by decide) (by decide)

theorem handlesNull_rollout : HandlesNull rolloutShape.decode ["rollout"] := by
  unfold rolloutShape
  apply handlesNull_section
  refine ⟨?parallelism, ?logging⟩
  case parallelism =>
    exact Part.handlesNull_optional handlesNull_parallelism rfl rfl (by decide) (by decide)
  case logging =>
    exact Part.handlesNull_of_refusesNull (handlesNull_logging _) rfl refusesNull_section

theorem handlesNull_checkpointing :
    HandlesNull checkpointingShape.decode ["training", "checkpointing"] := by
  have hcount := refusesMappings_count.handlesNull
  unfold checkpointingShape
  apply handlesNull_section
  refine ⟨?path, ?interval⟩
  case path => exact Part.handlesNull_text refusesMappings_path (by decide) (by decide)
  case interval => exact Part.handlesNull_of_refusesNull (hcount _) rfl refusesNull_count

theorem handlesNull_proxy : HandlesNull proxyShape.decode ["training", "proxy"] := by
  have hport := refusesMappings_port.handlesNull
  unfold proxyShape
  apply handlesNull_section
  refine ⟨?host, ?frontend, ?backend⟩
  case host => exact Part.handlesNull_text refusesMappings_text (by decide) (by decide)
  case frontend => exact Part.handlesNull_of_refusesNull (hport _) rfl refusesNull_port
  case backend => exact Part.handlesNull_of_refusesNull (hport _) rfl refusesNull_port

theorem handlesNull_training : HandlesNull trainingShape.decode ["training"] := by
  have hmode : RefusesMappings modeShape.decode := refusesMappings_variant _ _
  have hpath := refusesMappings_path.handlesNull
  have hcount := refusesMappings_count.handlesNull
  unfold trainingShape
  apply handlesNull_section
  refine ⟨?mode, ?loadPath, ?loadEpisode, ?checkpointing, ?proxy, ?numWorkers, ?logging⟩
  case mode =>
    exact Part.handlesNull_of_refusesNull (hmode.handlesNull _) rfl
      (refusesNull_variant (by decide))
  case loadPath => exact Part.handlesNull_optional (hpath _) rfl rfl (by decide) (by decide)
  case loadEpisode => exact Part.handlesNull_optional (hcount _) rfl rfl (by decide) (by decide)
  case checkpointing =>
    exact Part.handlesNull_optional handlesNull_checkpointing rfl rfl (by decide) (by decide)
  case proxy => exact Part.handlesNull_optional handlesNull_proxy rfl rfl (by decide) (by decide)
  case numWorkers => exact Part.handlesNull_optional (hcount _) rfl rfl (by decide) (by decide)
  case logging =>
    exact Part.handlesNull_of_refusesNull (handlesNull_logging _) rfl refusesNull_section

theorem handlesNull_workflow : HandlesNull workflowShape.decode [] := by
  unfold workflowShape
  apply handlesNull_section
  refine ⟨?job, ?scenarioPath, ?logPath, ?main, ?rollout, ?training⟩
  case job => exact Part.handlesNull_text refusesMappings_text (by decide) (by decide)
  case scenarioPath => exact Part.handlesNull_text refusesMappings_path (by decide) (by decide)
  case logPath => exact Part.handlesNull_text refusesMappings_path (by decide) (by decide)
  case main => exact Part.handlesNull_of_refusesNull handlesNull_main rfl refusesNull_section
  case rollout =>
    exact Part.handlesNull_of_refusesNull handlesNull_rollout rfl refusesNull_section
  case training =>
    exact Part.handlesNull_of_refusesNull handlesNull_training rfl refusesNull_section

end RunPlan
