import RunPlan.Proofs.Load
import RunPlan.Proofs.Nulls
import RunPlan.Proofs.Yaml.Document

/-!
# Nulls in documents

Required fields are looked at before anything is decoded, and must not be null. Apart from
that, data and texts of documents that lose a null are read like their sections are.

## Key results

- `Value.DropsNull.checkRequired_eq_ok`, `Yaml.Node.DropsNull.checkRequired_eq_ok`: no required
  field is lost
- `Workflow.read_dropsNull`: what data and texts of documents say without a null
-/

namespace RunPlan

open Yaml

variable {α : Type} {parts : List (Part α)} {path : NodePath} {seen : List String} {a : α}

/-! ## Required fields -/

/-- The required fields are there when none of them is missing. -/
theorem checkRequired_mapping_iff {entries : List (Value × Value)} :
    checkRequired (.mapping entries) = .ok () ↔
      ∀ name ∈ requiredFields, isMissing entries name = false := by
  have hnone : requiredFields.find? (isMissing entries) = none ↔
      ∀ name ∈ requiredFields, isMissing entries name = false := by
    simp only [List.find?_eq_none, Bool.not_eq_true]
  rw [← hnone]
  unfold checkRequired
  cases hfind : requiredFields.find? (isMissing entries) with
  | none => simp [hfind]
  | some name => simp [hfind]

section

variable {before after entries : List (Value × Value)} {key v v' : Value} {name : String}

/-- An entry under another key makes no difference to a field. -/
theorem isMissing_append_of_ne (h : key.isText name = false) :
    isMissing (before ++ after) name = isMissing (before ++ (key, v) :: after) name := by
  simp only [isMissing, Value.find?, List.find?_append, List.find?_cons, h]

/-- Only whether a value is null makes a difference. -/
theorem isMissing_congr (h : v'.isNull = v.isNull) :
    isMissing (before ++ (key, v') :: after) name =
      isMissing (before ++ (key, v) :: after) name := by
  simp only [isMissing, Value.find?, List.find?_append, List.find?_cons]
  cases before.find? (fun e => e.1.isText name) with
  | some e => rfl
  | none =>
    cases key.isText name with
    | false => rfl
    | true => exact h

end

/-- A scalar that reads as a text is written as that text. -/
theorem eq_of_scalarValue_eq_string {tag : Option String} {plain : Bool} {text s : String}
    (h : scalarValue tag plain text = some (.string s)) : text = s := by
  have hplain (h : (if plain then plainValue text else some (.string text)) = some (.string s)) :
      text = s := by
    split at h
    · exact (eq_of_plainValue_eq_string h).symm
    · exact Value.string.inj (Option.some.inj h)
  unfold scalarValue at h
  split at h
  · rename_i core _
    -- the other kinds are no texts
    cases core <;> simp [coreValue] at h
  · exact Value.string.inj (Option.some.inj h)
  · exact hplain h
  · exact hplain h

/-- A node that reads as a text is a scalar that writes it. -/
theorem names_of_toValue {name : String} : ∀ {n : Node}, n.toValue = some (.string name) →
    n.Names name
  | .scalar tag plain text, h => by
    obtain ⟨v, hv, htag⟩ := Option.map_eq_some_iff.mp h
    unfold withTag at htag
    -- a text with a tag of the document's own is no text
    split at htag
    · cases htag
    · rw [htag] at hv
      obtain rfl := eq_of_scalarValue_eq_string hv
      exact ⟨tag, plain, rfl⟩
  | .sequence tag items, h => by
    obtain ⟨vs, -, htag⟩ := Option.map_eq_some_iff.mp h
    unfold withTag at htag
    split at htag <;> cases htag
  | .mapping tag entries, h => by
    obtain ⟨vs, -, htag⟩ := Option.map_eq_some_iff.mp h
    unfold withTag at htag
    split at htag <;> cases htag
  | .reference (some target), h => names_of_toValue (n := target) h
  | .reference none, h => nomatch h

/-- Entries of data that stand for entries of a document: whatever name is a key of the one is
    written as a key of the other. -/
def KeysWritten (nodes : List (Node × Node)) (entries : List (Value × Value)) : Prop :=
  ∀ entry ∈ entries, ∀ name, entry.1.isText name = true → ∃ node ∈ nodes, node.1.Names name

/-- A key that is a text is that text. -/
theorem eq_string_of_isText {key : Value} {name : String} (h : key.isText name = true) :
    key = .string name := by
  unfold Value.isText at h
  split at h
  · rw [beq_iff_eq.mp h]
  · cases h

/-- The keys of a document that is printed. -/
theorem keysWritten_entryNodes (entries : List (Value × Value)) :
    KeysWritten (entryNodes entries) entries := by
  induction entries with
  | nil => exact fun entry hentry => nomatch hentry
  | cons entry entries ih =>
    intro e he name htext
    cases List.mem_cons.mp he with
    | inl heq =>
      rw [heq] at htext
      refine ⟨(valueNode entry.1, valueNode entry.2), List.mem_cons_self, none, false, ?_⟩
      rw [eq_string_of_isText htext]
      rfl
    | inr hmem =>
      obtain ⟨node, hnode, hname⟩ := ih e hmem name htext
      exact ⟨node, List.mem_cons_of_mem _ hnode, hname⟩

/-- The values of entries after a first one. -/
theorem entryValues_cons_iff {key n : Node} {rest : List (Node × Node)}
    {entries : List (Value × Value)} :
    entryValues ((key, n) :: rest) = some entries ↔
      ∃ k v others, key.toValue = some k ∧ n.toValue = some v ∧
        entryValues rest = some others ∧ (k, v) :: others = entries := by
  rw [entryValues]
  constructor
  · intro h
    split at h
    · rename_i k v others hk hv hothers
      exact ⟨k, v, others, hk, hv, hothers, Option.some.inj h⟩
    · cases h
  · intro h
    obtain ⟨k, v, others, hk, hv, hothers, hentries⟩ := h
    rw [hk, hv, hothers, ← hentries]

/-- The values of entries in a row. -/
theorem entryValues_append_iff {nodes nodes' : List (Node × Node)}
    {entries : List (Value × Value)} :
    entryValues (nodes ++ nodes') = some entries ↔
      ∃ before after, entryValues nodes = some before ∧ entryValues nodes' = some after ∧
        before ++ after = entries := by
  induction nodes generalizing entries with
  | nil => simp [entryValues]
  | cons node nodes ih =>
    obtain ⟨key, n⟩ := node
    rw [List.cons_append, entryValues_cons_iff]
    simp only [entryValues_cons_iff, ih]
    constructor
    · rintro ⟨k, v, _, hk, hv, ⟨before, after, hbefore, hafter, rfl⟩, rfl⟩
      exact ⟨(k, v) :: before, after, ⟨k, v, before, hk, hv, hbefore, rfl⟩, hafter, rfl⟩
    · rintro ⟨_, after, ⟨k, v, before, hk, hv, hbefore, rfl⟩, hafter, rfl⟩
      exact ⟨k, v, before ++ after, hk, hv, ⟨before, after, hbefore, hafter, rfl⟩, rfl⟩

/-- Every entry of a value comes from an entry of the node. -/
theorem exists_node_of_entryValues {nodes : List (Node × Node)} {entries : List (Value × Value)}
    (h : entryValues nodes = some entries) :
    ∀ entry ∈ entries, ∃ node ∈ nodes, node.1.toValue = some entry.1 ∧
      node.2.toValue = some entry.2 := by
  induction nodes generalizing entries with
  | nil =>
    obtain rfl := Option.some.inj h
    exact List.forall_mem_nil _
  | cons node nodes ih =>
    obtain ⟨k, v, others, hk, hv, hothers, rfl⟩ := entryValues_cons_iff.mp h
    rw [List.forall_mem_cons]
    refine ⟨⟨node, List.mem_cons_self, hk, hv⟩, fun entry hentry => ?_⟩
    obtain ⟨node', hnode, hvalue⟩ := ih hothers entry hentry
    exact ⟨node', List.mem_cons_of_mem _ hnode, hvalue⟩

/-- The keys of a document that is read. -/
theorem keysWritten_entryValues {nodes : List (Node × Node)} {entries : List (Value × Value)}
    (h : entryValues nodes = some entries) : KeysWritten nodes entries := by
  intro e he name htext
  obtain ⟨node, hnode, hkey, -⟩ := exists_node_of_entryValues h e he
  -- the key is a text, so that it is written as that text
  rw [show e.1 = .string name from eq_string_of_isText htext] at hkey
  exact ⟨node, hnode, names_of_toValue hkey⟩

/-- A field that is not missing has an entry that is not null. -/
theorem exists_entry_of_isMissing {entries : List (Value × Value)} {name : String}
    (h : isMissing entries name = false) :
    ∃ e ∈ entries, e.1.isText name = true ∧ e.2.isNull = false := by
  unfold isMissing at h
  cases hfind : Value.find? entries name with
  | none =>
    rw [hfind] at h
    cases h
  | some v =>
    rw [hfind] at h
    obtain ⟨e, he, rfl⟩ := Option.map_eq_some_iff.mp hfind
    have htext := List.find?_some he
    exact ⟨e, List.mem_of_find?_eq_some he, htext, h⟩

section

variable {tag : Option String} {before after : List (Node × Node)} {key n : Node}
  {before' after' : List (Value × Value)} {key' v v' : Value} {name : String} {w : Workflow}

/-- A document that is accepted has null at no required field. Without a null that it has at
    another field, nothing required is missing. -/
theorem checkRequired_append (hbefore : KeysWritten before before')
    (hafter : KeysWritten after after') (hkey : key.Names name)
    (hkey' : ∀ name', key'.isText name' = true → key.Names name') (hnull : v.isNull = true)
    (hdecode : Workflow.decode (.mapping tag (before ++ (key, n) :: after)) = .ok w)
    (hcheck : checkRequired (.mapping (before' ++ (key', v) :: after')) = .ok ()) :
    name ∉ requiredFields ∧ checkRequired (.mapping (before' ++ after')) = .ok () := by
  rw [checkRequired_mapping_iff] at hcheck
  obtain ⟨seen, a, hseen, p, hp, rfl, hnew, x, hx, names, hread, -⟩ :=
    (decodeSection_entry_iff isPartition_workflowParts hkey).mp hdecode
  have hoptional : p.name ∉ requiredFields := by
    intro hrequired
    obtain ⟨e, he, htext, hvalue⟩ := exists_entry_of_isMissing (hcheck p.name hrequired)
    -- an entry that is not null is another one of the same name
    cases List.mem_append.mp he with
    | inl he =>
      obtain ⟨node, hnode, hname⟩ := hbefore e he p.name htext
      exact hnew (mem_names_of_decodeEntries isPartition_workflowParts hseen hnode hname)
    | inr he =>
      cases List.mem_cons.mp he with
      | inl he =>
        rw [he, hnull] at hvalue
        cases hvalue
      | inr he =>
        obtain ⟨node, hnode, hname⟩ := hafter e he p.name htext
        obtain ⟨new, rfl, hfresh, hless⟩ :=
          exists_names_of_decodeEntries isPartition_workflowParts hread
        have hmem := mem_names_of_decodeEntries isPartition_workflowParts
          (hless [] (List.nil_subset _)) hnode hname
        rw [List.append_nil] at hmem
        exact hfresh p.name hmem List.mem_cons_self
  -- the entry that is lost is not looked at when a required field is looked for
  refine ⟨hoptional, checkRequired_mapping_iff.mpr fun name' hname' => ?_⟩
  have hother : key'.isText name' = false := by
    rw [← Bool.not_eq_true]
    intro htext
    exact hoptional (hkey.unique (hkey' name' htext) ▸ hname')
  rw [isMissing_append_of_ne hother]
  exact hcheck name' hname'

/-- A value that is not null may be replaced by another one. -/
theorem checkRequired_replace (hnull : v'.isNull = v.isNull)
    (hcheck : checkRequired (.mapping (before' ++ (key', v) :: after')) = .ok ()) :
    checkRequired (.mapping (before' ++ (key', v') :: after')) = .ok () := by
  rw [checkRequired_mapping_iff] at hcheck ⊢
  intro name hname
  rw [isMissing_congr hnull]
  exact hcheck name hname

end

/-- Something is named before a null is lost. -/
theorem Yaml.Node.DropsNull.ne_nil {names : List String} {n n' : Node}
    (h : n.DropsNull names n') : names ≠ [] := by
  cases h with
  | field => exact List.cons_ne_nil _ _
  | within => exact List.cons_ne_nil _ _

/-- Without a null there are no more tags than with it. -/
theorem Value.DropsNull.hasNestedTag_eq {names : List String} {v v' : Value}
    (h : v.DropsNull names v') (htags : v.hasNestedTag = false) : v'.hasNestedTag = false := by
  induction h with
  | field =>
    simp only [Value.hasNestedTag, Value.entriesNestTags_eq_false_iff, List.forall_mem_append,
      List.forall_mem_cons] at htags ⊢
    exact ⟨htags.1, htags.2.2⟩
  | within _ ih =>
    simp only [Value.hasNestedTag, Value.entriesNestTags_eq_false_iff, List.forall_mem_append,
      List.forall_mem_cons] at htags ⊢
    exact ⟨htags.1, ⟨htags.2.1.1, ih htags.2.1.2⟩, htags.2.2⟩

/-- Data that is accepted has null at no required field, and keeps them when it loses another
    null. -/
theorem Value.DropsNull.checkRequired_eq_ok {names : List String} {v v' : Value} {w : Workflow}
    (h : v.DropsNull names v') (hdecode : Workflow.decode (Yaml.valueNode v) = .ok w)
    (hcheck : checkRequired v = .ok ()) :
    names ∉ requiredFields.map ([·]) ∧ checkRequired v' = .ok () := by
  cases h with
  | @field before after name =>
    have hnode : Yaml.valueNode (.mapping (before ++ (.string name, .null) :: after)) =
        .mapping none (entryNodes before ++ (.scalar none false name, .ofPlain "null") ::
          entryNodes after) :=
      congrArg (Node.mapping none) (entryNodes_append ..)
    rw [hnode] at hdecode
    obtain ⟨hname, hcheck'⟩ := checkRequired_append (keysWritten_entryNodes before)
      (keysWritten_entryNodes after) ⟨none, false, rfl⟩
      (fun name' htext => ⟨none, false, by rw [Value.string.inj (eq_string_of_isText htext)]; rfl⟩)
      rfl hdecode hcheck
    exact ⟨by simpa using hname, hcheck'⟩
  | @within before after v v' name names hdrop =>
    -- a required field is at the top, and a mapping that loses a null is no null
    refine ⟨?_, checkRequired_replace ?_ hcheck⟩
    · simp [hdrop.valueNode.ne_nil]
    · cases hdrop with
      | field => rfl
      | within => rfl

/-- Only data without a tag of the document's own is accepted. -/
theorem withTag_eq_of_checkRequired {tag : Option String} {entries : List (Value × Value)}
    (h : checkRequired (withTag tag (.mapping entries)) = .ok ()) (v : Value) :
    withTag tag v = v := by
  unfold withTag at h ⊢
  split at h
  · cases h
  · rfl

/-- A node and the node behind its aliases have the same value. -/
theorem toValue_target {v : Value} : ∀ {n : Node}, n.toValue = some v → n.target.toValue = some v
  | .scalar .., h => h
  | .sequence .., h => h
  | .mapping .., h => h
  | .reference (some target), h => toValue_target (n := target) h
  | .reference none, h => nomatch h

/-- Null reads as null. -/
theorem Yaml.Node.IsNull.isNull_of_toValue {n : Node} {v : Value} (h : n.IsNull)
    (hv : n.toValue = some v) : v.isNull = true := by
  obtain ⟨text, htarget, hnull⟩ := h
  have hscalar := toValue_target hv
  rw [htarget] at hscalar
  obtain ⟨u, hu, rfl⟩ := Option.map_eq_some_iff.mp hscalar
  obtain rfl : .null = u :=
    Option.some.inj (((plainValue_eq_null_iff text).mpr (Or.inr hnull)).symm.trans hu)
  rfl

/-- The value of a mapping is not null. -/
theorem isNull_of_toValue_mapping {tag : Option String} {entries : List (Node × Node)} {v : Value}
    (h : (Node.mapping tag entries).toValue = some v) : v.isNull = false := by
  obtain ⟨vs, -, rfl⟩ := Option.map_eq_some_iff.mp h
  unfold withTag
  split <;> rfl

/-- The value of a mapping with an entry in the middle. -/
theorem exists_entries_of_toValue {tag : Option String} {before after : List (Node × Node)}
    {key n : Node} {v : Value}
    (h : (Node.mapping tag (before ++ (key, n) :: after)).toValue = some v) :
    ∃ before' after' key' u, entryValues before = some before' ∧ entryValues after = some after' ∧
      key.toValue = some key' ∧ n.toValue = some u ∧
        withTag tag (.mapping (before' ++ (key', u) :: after')) = v := by
  obtain ⟨entries, hentries, rfl⟩ := Option.map_eq_some_iff.mp h
  obtain ⟨before', rest', hbefore, hrest, rfl⟩ := entryValues_append_iff.mp hentries
  obtain ⟨key', u, after', hkey, hu, hafter, rfl⟩ := entryValues_cons_iff.mp hrest
  exact ⟨before', after', key', u, hbefore, hafter, hkey, hu, rfl⟩

/-- A document that is accepted has null at no required field, and keeps them when it loses
    another null. -/
theorem Yaml.Node.DropsNull.checkRequired_eq_ok {names : List String} {n n' : Node}
    {v v' : Value} {w : Workflow} (h : n.DropsNull names n') (hv : n.toValue = some v)
    (hv' : n'.toValue = some v') (hdecode : Workflow.decode n = .ok w)
    (hcheck : checkRequired v = .ok ()) :
    names ∉ requiredFields.map ([·]) ∧ checkRequired v' = .ok () := by
  cases h with
  | @field tag before after key n name hkey hnull =>
    obtain ⟨before', after', key', u, hbefore, hafter, hk, hu, rfl⟩ := exists_entries_of_toValue hv
    have hrest : (Node.mapping tag (before ++ after)).toValue =
        some (withTag tag (.mapping (before' ++ after'))) :=
      Option.map_eq_some_iff.mpr
        ⟨_, entryValues_append_iff.mpr ⟨before', after', hbefore, hafter, rfl⟩, rfl⟩
    have huntagged := withTag_eq_of_checkRequired hcheck
    obtain rfl := Option.some.inj (hrest.symm.trans hv')
    rw [huntagged] at hcheck ⊢
    have hkeys (name' : String) (htext : key'.isText name' = true) : key.Names name' :=
      names_of_toValue (hk.trans (congrArg some (eq_string_of_isText htext)))
    obtain ⟨hname, hcheck'⟩ := checkRequired_append (keysWritten_entryValues hbefore)
      (keysWritten_entryValues hafter) hkey hkeys (hnull.isNull_of_toValue hu) hdecode hcheck
    exact ⟨by simpa using hname, hcheck'⟩
  | @within tag before after key n n' name names hkey hdrop =>
    obtain ⟨before', after', key', u, hbefore, hafter, hk, hu, rfl⟩ := exists_entries_of_toValue hv
    obtain ⟨before'', after'', key'', u', hbefore', hafter', hk', hu', rfl⟩ :=
      exists_entries_of_toValue hv'
    -- both documents have the same entries around the one that loses a null
    have huntagged := withTag_eq_of_checkRequired hcheck
    obtain rfl := Option.some.inj (hbefore.symm.trans hbefore')
    obtain rfl := Option.some.inj (hafter.symm.trans hafter')
    obtain rfl := Option.some.inj (hk.symm.trans hk')
    rw [huntagged] at hcheck ⊢
    obtain ⟨⟨_, _, rfl⟩, _, _, rfl⟩ := hdrop.isMapping
    refine ⟨by simp [hdrop.ne_nil], checkRequired_replace ?_ hcheck⟩
    rw [isNull_of_toValue_mapping hu, isNull_of_toValue_mapping hu']

/-! ## Documents -/

namespace Workflow

/-- The value that a text reads as. -/
theorem toValue_of_readNode {text : String} {n : Node} {v : Value}
    (hread : readNode text = .ok (n, v)) : n.toValue = some v := by
  obtain ⟨document, -, hbounds⟩ := bind_eq_ok_iff.mp hread
  dsimp only at hbounds
  split at hbounds
  · cases hbounds
  · obtain ⟨u, hu, hpair⟩ := bind_eq_ok_iff.mp hbounds
    cases hpair
    cases hvalue : (document.getD Node.empty).toValue with
    | none =>
      rw [hvalue] at hu
      cases hu
    | some x =>
      rw [hvalue] at hu
      exact congrArg some (Except.ok.inj hu)

/-- What data said is said without a null, unless a text was expected in its place. -/
theorem decode_dropsNull {names : List String} {n n' : Node} {w : Workflow}
    (h : n.DropsNull names n') (hdecode : Workflow.decode n = .ok w)
    (hname : names ∉ requiredFields.map ([·])) :
    (names ∉ nullTexts → Workflow.decode n' = .ok w) ∧
      (names ∈ nullTexts → ∀ w', Workflow.decode n' ≠ .ok w') := by
  constructor
  · intro hnames
    apply handlesNull_workflow.kept h hdecode
    rw [List.nil_append, textFields, List.mem_append, not_or]
    exact ⟨hname, hnames⟩
  · intro hnames
    apply handlesNull_workflow.lost h hdecode
    rw [List.nil_append, textFields, List.mem_append]
    exact Or.inr hnames

/-- A null is the absence of a field to data that is accepted and to texts that are, except
    where it is taken for a text: without it, a field is missing then. -/
theorem read_dropsNull (names : List String) (w : Workflow) :
    (∀ v v' : Value, v.DropsNull names v' → ofValue v = .ok w →
      (names ∉ nullTexts → ofValue v' = .ok w) ∧
        (names ∈ nullTexts → ∀ w', ofValue v' ≠ .ok w')) ∧
    (∀ (text text' : String) (n n' : Node) (v v' : Value),
      readNode text = .ok (n, v) → readNode text' = .ok (n', v') → n.DropsNull names n' →
      ofText text = .ok w →
        (names ∉ nullTexts → ofText text' = .ok w) ∧
          (names ∈ nullTexts → ∀ w', ofText text' ≠ .ok w')) := by
  constructor
  · intro v v' hdrop hw
    obtain ⟨hcheck, htags, hdecode⟩ := ofValue_eq_ok_iff_decode.mp hw
    obtain ⟨hname, hcheck'⟩ := hdrop.checkRequired_eq_ok hdecode hcheck
    obtain ⟨hkept, hlost⟩ := decode_dropsNull hdrop.valueNode hdecode hname
    simp only [ofValue_eq_ok_iff_decode, Ne]
    exact ⟨fun hnames => ⟨hcheck', hdrop.hasNestedTag_eq htags, hkept hnames⟩,
      fun hnames w' hw' => hlost hnames w' hw'.2.2⟩
  · intro text text' n n' v v' hread hread' hdrop hw
    obtain ⟨hcheck, hdecode, hproblems⟩ := (ofText_eq_ok_iff hread).mp hw
    obtain ⟨hname, hcheck'⟩ := hdrop.checkRequired_eq_ok (toValue_of_readNode hread)
      (toValue_of_readNode hread') hdecode hcheck
    obtain ⟨hkept, hlost⟩ := decode_dropsNull hdrop hdecode hname
    simp only [ofText_eq_ok_iff hread', Ne]
    exact ⟨fun hnames => ⟨hcheck', hkept hnames, hproblems⟩,
      fun hnames w' hw' => hlost hnames w' hw'.2.1⟩

/-- Keys that can be written are written. -/
theorem isFieldName_of_all {fields : List (String × Value)}
    (h : (fields.map Prod.fst).all isFieldName = true) : ∀ f ∈ fields, IsFieldName f.1 :=
  fun f hf => isFieldName_spec (List.all_eq_true.mp h f.1 (List.mem_map_of_mem hf))

/-- A document that loses a null that is an absence, and data that loses one that is the name
    of a host. -/
theorem read_dropsNull_steps_host :
    let document (name : String) (rows : List (String × Value)) : List (String × Value) :=
      [("job", .string "j"), ("scenario_path", .string "s"), ("log_path", .string "l"),
        (name, .record rows)]
    let main (rows : List (String × Value)) : Value := .record (document "main" rows)
    let training (rows : List (String × Value)) : Value :=
      .record (document "training" [("proxy", .record rows)])
    let steps : List (String × Value) := [("num_steps", .int 3)]
    let ports : List (String × Value) := [("frontend", .int 1), ("backend", .int 2)]
    let w : Workflow := { minimal "j" ⟨"s"⟩ ⟨"l"⟩ with main.numSteps := some 3 }
    let w' : Workflow := { minimal "j" ⟨"s"⟩ ⟨"l"⟩ with training.proxy := some ⟨"null", 1, 2⟩ }
    ofText (render (main (("num_episodes", .null) :: steps))) = .ok w ∧
      ofText (render (main steps)) = .ok w ∧
      ofValue (training (("host", .null) :: ports)) = .ok w' ∧
      ∀ w', ofValue (training ports) ≠ .ok w' := by
  intro document main training steps ports w w'
  have hread {rows : List (String × Value)}
      (hnames : (rows.map Prod.fst).all isFieldName = true) (hdistinct : (rows.map Prod.fst).Nodup)
      (h : ∀ f ∈ rows, IsWritten 0 f.2) :
      readNode (render (main rows)) = .ok (writtenNode (main rows), main rows) := by
    have hrows : IsWritten 1 (.record rows) := .record (isFieldName_of_all hnames) hdistinct h
    -- the names do not depend on what the section has
    have hall : ["job", "scenario_path", "log_path", "main"].all isFieldName = true := by decide
    have hnodup : ["job", "scenario_path", "log_path", "main"].Nodup := by decide
    have hdocument : IsWritten 2 (main rows) := by
      refine .record (isFieldName_of_all hall) hnodup ?_
      simpa [document] using ⟨.scalar (.string _), .scalar (.string _), .scalar (.string _), hrows⟩
    exact readNode_render (List.cons_ne_nil _ _) hdocument (by decide)
  have hsteps : ∀ f ∈ steps, IsWritten 0 f.2 := by
    simpa [steps] using .scalar (.ofNat (show 3 < 2 ^ 64 by decide))
  have htext := @hread (("num_episodes", .null) :: steps) (by decide) (by decide)
    (List.forall_mem_cons.mpr ⟨.scalar .null, hsteps⟩)
  have htext' := hread (by decide) (by decide) hsteps
  have hepisodes : Node.DropsNull ["main", "num_episodes"]
      (writtenNode (main (("num_episodes", .null) :: steps))) (writtenNode (main steps)) :=
    @Node.DropsNull.within none [_, _, _] [] _ _ _ "main" _ ⟨_, _, rfl⟩
      (@Node.DropsNull.field none [] [_] _ _ "num_episodes" ⟨_, _, rfl⟩ ⟨"null", rfl, rfl⟩)
  have hhost : Value.DropsNull ["training", "proxy", "host"]
      (training (("host", .null) :: ports)) (training ports) :=
    @Value.DropsNull.within [_, _, _] [] _ _ "training" _
      (@Value.DropsNull.within [] [] _ _ "proxy" _ (@Value.DropsNull.field [] _ "host"))
  have hw : ofText (render (main (("num_episodes", .null) :: steps))) = .ok w :=
    eq_ok_of_toOption (by decide +kernel)
  have hw' : ofValue (training (("host", .null) :: ports)) = .ok w' :=
    eq_ok_of_toOption (by decide +kernel)
  have hkept := (read_dropsNull _ w).2 _ _ _ _ _ _ htext htext' hepisodes hw
  have hlost := (read_dropsNull _ w').1 _ _ hhost hw'
  exact ⟨hw, hkept.1 (by decide), hw', hlost.2 (by decide)⟩

/-- A host that is null is the text `null`, and is missing when it is not written. -/
theorem ofValue_ne_ok_null_host :
    let document (controller : List (String × Value)) : Value :=
      .record [("job", .string "j"), ("scenario_path", .string "s"), ("log_path", .string "l"),
        ("rollout", .record [("parallelism", .record [("controller", .record controller)])])]
    let v := document [("host", .null), ("port", .int 1)]
    let v' := document [("port", .int 1)]
    let w : Workflow := { minimal "j" ⟨"s"⟩ ⟨"l"⟩ with
      rollout.parallelism := some { controller := some ⟨"null", 1⟩ } }
    IsUntagged v ∧ v.DropsNull ["rollout", "parallelism", "controller", "host"] v' ∧
      ofValue v = .ok w ∧ ofValue v' ≠ .ok w := by
  intro document v v' w
  refine ⟨?_, ?_, eq_ok_of_toOption (by decide +kernel), ?_⟩
  · have hport : IsUntagged (.int 1) := .int (by decide) (by decide)
    simp [v, document, isUntagged_record_iff, hport, IsUntagged.null, IsUntagged.string]
  · exact @Value.DropsNull.within [_, _, _] [] _ _ "rollout" _
      (@Value.DropsNull.within [] [] _ _ "parallelism" _
        (@Value.DropsNull.within [] [] _ _ "controller" _ (@Value.DropsNull.field [] _ "host")))
  · intro hw
    have hnone : (ofValue v').toOption = none := by decide +kernel
    rw [hw] at hnone
    cases hnone

end Workflow

end RunPlan
