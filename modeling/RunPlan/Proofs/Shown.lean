import RunPlan.Proofs.Assign
import RunPlan.Proofs.Load
import RunPlan.Proofs.Yaml.Scalar
import RunPlan.Workflow.Tree

/-!
# Data that shows a workflow

Data that has been read already is decoded like a document that was printed from it, with
numbers in their canonical spelling. A `Shape` says which data shows which value and that
decoding finds just that value. The shapes of the sections are put together from those of
their parts (`Shape.ofParts`), in parallel to the fields of the schema.

## Key results

- `decodeEntries_rows_iff`: the rows of a section are decoded when they show its parts
- `Workflow.ofValue_eq_ok_iff`: data is decoded to the workflow that it shows
-/

namespace RunPlan

open Yaml

/-- Data without tags. Its keys are data too, and its integers are those that a document can
    write: of 64 bits, with or without a sign. -/
inductive IsUntagged : Value → Prop where
  | null : IsUntagged .null
  | bool (b : Bool) : IsUntagged (.bool b)
  | int {n : Int} (hlow : -2 ^ 63 ≤ n) (hhigh : n < 2 ^ 64) : IsUntagged (.int n)
  | float (x : Binary64) : IsUntagged (.float x)
  | string (s : String) : IsUntagged (.string s)
  | sequence {items : List Value} (h : ∀ v ∈ items, IsUntagged v) : IsUntagged (.sequence items)
  | mapping {entries : List (Value × Value)} (hkeys : ∀ entry ∈ entries, IsUntagged entry.1)
      (h : ∀ entry ∈ entries, IsUntagged entry.2) : IsUntagged (.mapping entries)

/-- Without tags there are none on tags. -/
theorem IsUntagged.hasNestedTag_eq {v : Value} (h : IsUntagged v) : v.hasNestedTag = false := by
  induction h with
  | sequence _ ih => exact Value.itemsNestTags_eq_false_iff.mpr ih
  | mapping _ _ ihkeys ih =>
    exact Value.entriesNestTags_eq_false_iff.mpr fun entry hentry =>
      ⟨ihkeys entry hentry, ih entry hentry⟩
  | _ => rfl

/-- Settings have no tags. -/
theorem Settings.IsSettings.isUntagged {v : Value} (h : IsSettings v) : IsUntagged v := by
  induction h with
  | null => exact .null
  | bool b => exact .bool b
  | int hlow hhigh => exact .int hlow (by omega)
  | float x => exact .float x
  | string s => exact .string s
  | sequence _ ih => exact .sequence ih
  | mapping hkeys _ ih =>
    refine .mapping (fun entry hentry => ?_) ih
    obtain ⟨name, hname⟩ := hkeys entry hentry
    rw [hname]
    exact .string name

/-- A record has no tags when its rows have none. -/
theorem isUntagged_record_iff {rows : List (String × Value)} :
    IsUntagged (.record rows) ↔ ∀ row ∈ rows, IsUntagged row.2 := by
  constructor
  · intro h
    cases h with
    | mapping _ h => exact fun row hrow => h _ (List.mem_map_of_mem hrow)
  · intro h
    refine .mapping ?_ ?_
    · intro entry hentry
      obtain ⟨row, -, rfl⟩ := List.mem_map.mp hentry
      exact .string row.1
    · intro entry hentry
      obtain ⟨row, hrow, rfl⟩ := List.mem_map.mp hentry
      exact h row hrow

/-- How values of a type stand in data. -/
structure Shape (β : Type) where
  decode : NodePath → Node → Except SchemaError β
  /-- Which data shows which value. -/
  shows : Value → β → Prop
  decode_iff {v : Value} (h : IsUntagged v) (path : NodePath) (b : β) :
    decode path (valueNode v) = .ok b ↔ shows v b

/-! ## Scalars -/

/-- The text of a scalar as a document writes it. -/
def Value.text? : Value → Option String
  | null => some "null"
  | bool b => some (if b then "true" else "false")
  | int n => some (Numeral.ofInt n)
  | float x => some (floatText x)
  | string s => some s
  | _ => none

/-- A scalar that is written without quotes, its text and what the text reads as. -/
structure IsBare (v : Value) (text : String) (read : Value) : Prop where
  text_eq : v.text? = some text
  node : valueNode v = .ofPlain text
  value : plainValue text = some read
  /-- Only what is not a number may become another of its kind. -/
  same : v = read ∨ ∃ x y, v = .float x ∧ read = .float y

/-- Data is a scalar without quotes, a text, a sequence or a mapping. -/
theorem isBare_or {v : Value} (h : IsUntagged v) :
    (∃ text read, IsBare v text read) ∨ (∃ s, v = .string s) ∨
      (∃ items, v = .sequence items) ∨ ∃ entries, v = .mapping entries := by
  -- the text of a number is read back as the number, unless it is not a number
  cases h with
  | null => exact Or.inl ⟨"null", .null, rfl, rfl, rfl, Or.inl rfl⟩
  | bool b =>
    cases b with
    | true => exact Or.inl ⟨"true", .bool true, rfl, rfl, rfl, Or.inl rfl⟩
    | false => exact Or.inl ⟨"false", .bool false, rfl, rfl, rfl, Or.inl rfl⟩
  | @int n hlow hhigh =>
    exact Or.inl ⟨Numeral.ofInt n, .int n, rfl, rfl, plainValue_ofInt hlow hhigh, Or.inl rfl⟩
  | float x =>
    left
    by_cases hfinite : x.isFinite = true
    · refine ⟨_, .float x, rfl, rfl, ?_, Or.inl rfl⟩
      rw [floatText_of_isFinite hfinite]
      exact plainValue_toScientific hfinite
    · obtain ⟨y, hy⟩ : ∃ y, plainValue (Value.floatText x) = some (.float y) := by
        unfold Value.floatText Binary64.signText
        split
        · exact ⟨_, rfl⟩
        · rw [if_pos (by simpa using hfinite)]
          split
          · exact ⟨_, rfl⟩
          · exact ⟨_, rfl⟩
      exact ⟨_, .float y, rfl, rfl, hy, Or.inr ⟨x, y, rfl, rfl⟩⟩
  | string s => exact Or.inr (Or.inl ⟨s, rfl⟩)
  | sequence => exact Or.inr (Or.inr (Or.inl ⟨_, rfl⟩))
  | mapping => exact Or.inr (Or.inr (Or.inr ⟨_, rfl⟩))

/-- Only null stands for null. -/
private theorem IsBare.read_eq_null_iff {v read : Value} {text : String}
    (h : IsBare v text read) : read = .null ↔ v = .null := by
  rcases h.same with rfl | ⟨x, y, rfl, rfl⟩
  · rfl
  · simp

/-- Something is written for every scalar. -/
private theorem IsBare.ne_empty {v read : Value} {text : String} (h : IsBare v text read) :
    text ≠ "" := by
  rintro rfl
  obtain rfl : .null = read := Option.some.inj h.value
  obtain rfl := h.read_eq_null_iff.mp rfl
  exact absurd h.text_eq (by decide)

/-- Data that is written like a word is that word: no word reads as null, a boolean or a
    number. -/
theorem eq_string_of_text? {v : Value} (h : IsUntagged v) {name : String}
    (htext : v.text? = some name) (hword : isPlainText name = true) : v = .string name := by
  obtain ⟨text, read, hbare⟩ | ⟨t, rfl⟩ | ⟨items, rfl⟩ | ⟨entries, rfl⟩ := isBare_or h
  · obtain rfl : text = name := Option.some.inj (hbare.text_eq.symm.trans htext)
    obtain rfl : read = .string text :=
      Option.some.inj (hbare.value.symm.trans (plainValue_of_isPlainText hword))
    rcases hbare.same with hv | ⟨x, y, -, hy⟩
    · exact hv
    · cases hy
  · exact congrArg Value.string (Option.some.inj htext)
  · cases htext
  · cases htext

/-- A text is decoded from any scalar. -/
private theorem decodeText_iff {v : Value} (h : IsUntagged v) (expected : String)
    (path : NodePath) (s : String) :
    decodeText expected path (valueNode v) = .ok s ↔ v.text? = some s := by
  obtain ⟨text, read, hbare⟩ | ⟨t, rfl⟩ | ⟨items, rfl⟩ | ⟨entries, rfl⟩ := isBare_or h
  · rw [hbare.node, hbare.text_eq]
    simp [decodeText, Node.ofPlain, Node.target]
  · simp [decodeText, valueNode, Node.target, Value.text?]
  · simp [decodeText, valueNode, Node.target, Value.text?, wrongType]
  · simp [decodeText, valueNode, Node.target, Value.text?, wrongType]

/-- A text. -/
def textShape : Shape String where
  decode := decodeString
  shows v s := v.text? = some s
  decode_iff h path s := decodeText_iff h _ path s

/-- A path. -/
def pathShape : Shape Path where
  decode := decodePath
  shows v p := v.text? = some p.text
  decode_iff h path p := by
    rw [decodePath, map_eq_ok_iff, ← decodeText_iff h "path string" path]
    constructor
    · rintro ⟨s, hs, rfl⟩
      exact hs
    · intro hs
      exact ⟨p.text, hs, rfl⟩

/-- A whole number is decoded from that number. -/
private theorem decodeNat_iff {v : Value} (h : IsUntagged v) {largest : Nat}
    (hlargest : largest < 2 ^ 64) (expected : String) (path : NodePath) (k : Nat) :
    decodeNat largest expected path (valueNode v) = .ok k ↔ v = .int k ∧ k ≤ largest := by
  obtain ⟨text, read, hbare⟩ | ⟨t, rfl⟩ | ⟨items, rfl⟩ | ⟨entries, rfl⟩ := isBare_or h
  · -- only the canonical spelling of a number is written for it
    rw [hbare.node]
    cases hread : readUnsigned? (2 ^ 64 - 1) text.toList with
    | none =>
      have hne : ¬ (v = .int k ∧ k ≤ largest) := by
        rintro ⟨rfl, hk⟩
        obtain rfl : Numeral.ofInt k = text := Option.some.inj hbare.text_eq
        rw [Numeral.ofInt_natCast, Numeral.ofNat, String.toList_ofList,
          readUnsigned?_toDigits (by omega)] at hread
        cases hread
      simp [decodeNat, Node.ofPlain, Node.target, hread, wrongType, hne]
    | some n =>
      obtain rfl : read = .int n :=
        Option.some.inj (hbare.value.symm.trans (plainValue_of_readUnsigned? hread))
      have hv : v = .int n := by
        rcases hbare.same with hv | ⟨x, y, -, hy⟩
        · exact hv
        · cases hy
      simp only [decodeNat, Node.ofPlain, Node.target, if_true, hread, hv, Value.int.injEq,
        Int.natCast_inj]
      split
      · simp only [Except.ok.injEq]
        omega
      · simp only [reduceCtorEq, false_iff]
        omega
  · simp [decodeNat, valueNode, Node.target, wrongType]
  · simp [decodeNat, valueNode, Node.target, wrongType]
  · simp [decodeNat, valueNode, Node.target, wrongType]

/-- A number of 32 bits. -/
def countShape : Shape UInt32 where
  decode := decodeUInt32
  shows v n := v = .ofUInt32 n
  decode_iff h path n := by
    rw [decodeUInt32, map_eq_ok_iff, Value.ofUInt32]
    simp only [decodeNat_iff h (show 2 ^ 32 - 1 < 2 ^ 64 by decide)]
    constructor
    · rintro ⟨k, ⟨rfl, hk⟩, rfl⟩
      rw [UInt32.toNat_ofNat_of_lt' (by simp only [UInt32.size]; omega)]
    · rintro rfl
      have hn : n.toNat < 2 ^ 32 := n.toNat_lt
      exact ⟨n.toNat, ⟨rfl, by omega⟩, UInt32.ofNat_toNat⟩

/-- A port number. -/
def portShape : Shape UInt16 where
  decode := decodeUInt16
  shows v n := v = .ofUInt16 n
  decode_iff h path n := by
    rw [decodeUInt16, map_eq_ok_iff, Value.ofUInt16]
    simp only [decodeNat_iff h (show 2 ^ 16 - 1 < 2 ^ 64 by decide)]
    constructor
    · rintro ⟨k, ⟨rfl, hk⟩, rfl⟩
      rw [UInt16.toNat_ofNat_of_lt' (by simp only [UInt16.size]; omega)]
    · rintro rfl
      have hn : n.toNat < 2 ^ 16 := n.toNat_lt
      exact ⟨n.toNat, ⟨rfl, by omega⟩, UInt16.ofNat_toNat⟩

/-- A floating-point number: any scalar but a text that reads as the number. -/
def numberShape : Shape Binary64 where
  decode := decodeFloat
  shows v x := (∀ s, v ≠ .string s) ∧ ∃ text, v.text? = some text ∧ readFloat? text.toList = some x
  decode_iff {v} h path x := by
    obtain ⟨text, read, hbare⟩ | ⟨t, rfl⟩ | ⟨items, rfl⟩ | ⟨entries, rfl⟩ := isBare_or h
    · have hstring : ∀ s, v ≠ .string s := by
        rintro s rfl
        cases hbare.node
      rw [hbare.node, hbare.text_eq]
      cases hread : readFloat? text.toList with
      | none => simp [decodeFloat, Node.ofPlain, Node.target, hread, wrongType]
      | some y => simp [decodeFloat, Node.ofPlain, Node.target, hread, hstring]
    · simp [decodeFloat, valueNode, Node.target, wrongType]
    · simp [decodeFloat, valueNode, Node.target, wrongType, Value.text?]
    · simp [decodeFloat, valueNode, Node.target, wrongType, Value.text?]

/-- One of several names. -/
def nameShape {α : Type} (ofName? : String → Option α) (known : List String) : Shape α where
  decode := decodeVariant ofName? known
  shows v a := ∃ name, v.text? = some name ∧ ofName? name = some a
  decode_iff {v} h path a := by
    have hnamed (name : String) (plain : Bool) :
        decodeVariant ofName? known path (.scalar none plain name) = .ok a ↔
          ofName? name = some a := by
      cases hname : ofName? name with
      | none => simp [decodeVariant, Node.target, tagKind, hname]
      | some b => simp [decodeVariant, Node.target, tagKind, hname]
    obtain ⟨text, read, hbare⟩ | ⟨t, rfl⟩ | ⟨items, rfl⟩ | ⟨entries, rfl⟩ := isBare_or h
    · rw [hbare.node, hbare.text_eq, Node.ofPlain, hnamed]
      simp
    · rw [valueNode, hnamed]
      simp [Value.text?]
    · simp [decodeVariant, valueNode, Node.target, tagKind, wrongType, Value.text?]
    · simp [decodeVariant, valueNode, Node.target, tagKind, wrongType, Value.text?]

/-- A log level. -/
def levelShape : Shape LogLevel :=
  nameShape LogLevel.ofName? ["DEBUG", "INFO", "WARN", "WARNING", "ERROR"]

/-- A training mode. -/
def modeShape : Shape TrainingMode :=
  nameShape TrainingMode.ofName? ["simple", "parallel"]

/-- Data stands for the absence of a value when it is null. -/
private theorem isAbsent_iff {v : Value} (h : IsUntagged v) :
    isAbsent (valueNode v).target = true ↔ v = .null := by
  obtain ⟨text, read, hbare⟩ | ⟨t, rfl⟩ | ⟨items, rfl⟩ | ⟨entries, rfl⟩ := isBare_or h
  · have hnull := plainValue_eq_null_iff text
    rw [hbare.value, Option.some.injEq, hbare.read_eq_null_iff] at hnull
    rw [hnull, hbare.node]
    simp [isAbsent, Node.ofPlain, Node.target, tagKind]
  · simp [isAbsent, valueNode, Node.target]
  · simp [isAbsent, valueNode, Node.target]
  · simp [isAbsent, valueNode, Node.target]

/-- An optional value, absence being null. -/
def Shape.optional {β : Type} (shape : Shape β) : Shape (Option β) where
  decode := decodeOption shape.decode
  shows
    | v, none => v = .null
    | v, some b => v ≠ .null ∧ shape.shows v b
  decode_iff {v} h path o := by
    by_cases hnull : v = .null
    · rw [decodeOption, if_pos ((isAbsent_iff h).mpr hnull)]
      cases o with
      | none => simp [hnull]
      | some b => simp [hnull]
    · rw [decodeOption, if_neg (mt (isAbsent_iff h).mp hnull), map_eq_ok_iff]
      cases o with
      | none => simp [hnull]
      | some b => simp [hnull, shape.decode_iff h]

/-! ## Schedules -/

/-- An episode is decoded from its number. -/
private theorem episodeOf?_iff {v : Value} (h : IsUntagged v) (n : UInt32) :
    episodeOf? (valueNode v) = some n ↔ v = .ofUInt32 n := by
  obtain ⟨text, read, hbare⟩ | ⟨t, rfl⟩ | ⟨items, rfl⟩ | ⟨entries, rfl⟩ := isBare_or h
  · have hvalue : scalarValue none true text = some read := hbare.value
    have hread : read = .ofUInt32 n ↔ v = .ofUInt32 n := by
      rcases hbare.same with rfl | ⟨x, y, rfl, rfl⟩
      · rfl
      · simp [Value.ofUInt32]
    rw [← hread, hbare.node, Node.ofPlain, episodeOf?]
    simp only [Node.target, hvalue, Value.ofUInt32]
    constructor
    · intro hn
      split at hn
      · rename_i k hk
        split at hn
        · obtain rfl := Option.some.inj hn
          obtain rfl := Option.some.inj hk
          rw [UInt32.toNat_ofNat_of_lt' (by simpa [UInt32.size] using ‹k < 2 ^ 32›)]
          rfl
        · cases hn
      · cases hn
    · rintro rfl
      have hn : n.toNat < 2 ^ 32 := n.toNat_lt
      show (if n.toNat < 2 ^ 32 then some (UInt32.ofNat n.toNat) else none) = some n
      rw [if_pos hn, UInt32.ofNat_toNat]
  · simp [episodeOf?, valueNode, Node.target, scalarValue, tagKind, Value.ofUInt32]
  · simp [episodeOf?, valueNode, Node.target, Value.ofUInt32]
  · simp [episodeOf?, valueNode, Node.target, Value.ofUInt32]

/-- Episodes are decoded from their numbers. -/
private theorem episodesOf?_iff {items : List Value} (h : ∀ v ∈ items, IsUntagged v)
    (list : List UInt32) :
    (valueNodes items).mapM episodeOf? = some list ↔ items = list.map .ofUInt32 := by
  induction items generalizing list with
  | nil =>
    rw [valueNodes, List.mapM_nil]
    cases list <;> simp
  | cons v vs ih =>
    rw [List.forall_mem_cons] at h
    rw [valueNodes, List.mapM_cons]
    cases hv : episodeOf? (valueNode v) with
    | none =>
      have hne : ∀ n, v ≠ .ofUInt32 n := by
        intro n hn
        rw [(episodeOf?_iff h.1 n).mpr hn] at hv
        cases hv
      cases list <;> simp [hne]
    | some n =>
      obtain rfl := (episodeOf?_iff h.1 n).mp hv
      cases list with
      | nil => cases hvs : (valueNodes vs).mapM episodeOf? <;> simp
      | cons m list =>
        have hnumber : Value.ofUInt32 n = .ofUInt32 m ↔ n = m := by
          simp [Value.ofUInt32, UInt32.toNat_inj]
        rw [List.map_cons, List.cons_eq_cons, hnumber, ← ih h.2]
        cases hvs : (valueNodes vs).mapM episodeOf? <;> simp

/-- The numbers of a list have no tags. -/
private theorem findTagItems_ofUInt32 (list : List UInt32) (path : NodePath) (i : Nat) :
    findTagItems path i (valueNodes (list.map .ofUInt32)) = none := by
  induction list generalizing i with
  | nil => rfl
  | cons n list ih =>
    rw [List.map_cons, valueNodes, findTagItems, ih]
    rfl

/-- A schedule is decoded from its written form. -/
private theorem scheduleOf?_iff {v : Value} (h : IsUntagged v) (s : EvalSchedule) :
    scheduleOf? (valueNode v) = some s ↔ v = s.toValue := by
  by_cases hlist : ∃ items, v = .sequence items
  · obtain ⟨items, rfl⟩ := hlist
    cases h with
    | sequence h =>
      have hread : scheduleOf? (valueNode (.sequence items)) =
          ((valueNodes items).mapM episodeOf?).map .episodes := rfl
      cases s with
      | interval n => simp [hread, EvalSchedule.toValue, Value.ofUInt32]
      | episodes list => simp [hread, EvalSchedule.toValue, episodesOf?_iff h]
  · have hread : scheduleOf? (valueNode v) = (episodeOf? (valueNode v)).map .interval := by
      obtain ⟨text, read, hbare⟩ | ⟨t, rfl⟩ | hsequence | ⟨entries, rfl⟩ := isBare_or h
      · rw [hbare.node]
        rfl
      · rfl
      · exact absurd hsequence hlist
      · rfl
    cases s with
    | interval n => simp [hread, EvalSchedule.toValue, episodeOf?_iff h]
    | episodes list =>
      have hne : v ≠ (EvalSchedule.episodes list).toValue := fun hv => hlist ⟨_, hv⟩
      simp [hread, hne]

/-- A schedule, in its written form. -/
def scheduleShape : Shape EvalSchedule where
  decode := decodeSchedule
  shows v s := v = s.toValue
  decode_iff {v} h path s := by
    rw [← scheduleOf?_iff h s, decodeSchedule]
    constructor
    · intro hread
      split at hread
      · cases hread
      split at hread
      · rename_i hs
        rw [hs, Except.ok.inj hread]
      · cases hread
    · intro hs
      have htag : findTag path (valueNode v) = none := by
        rw [(scheduleOf?_iff h s).mp hs]
        cases s with
        | interval n => rfl
        | episodes list =>
          rw [EvalSchedule.toValue, valueNode, findTag, findTagItems_ofUInt32]
          rfl
      rw [htag, hs]

/-! ## Sections -/

/-- A part of a section: its name, its shape, and the component that holds it. -/
structure Part (α : Type) where
  β : Type
  name : String
  shape : Shape β
  get : α → β
  store : α → β → α
  get_store (a : α) (b : β) : get (store a b) = b

variable {α : Type} {parts : List (Part α)} {rows : List (String × Value)} {a b : α}

/-- The field that takes a part. -/
def Part.field (p : Part α) : Field α :=
  .of p.name p.shape.decode p.store

/-- What rows show of a part: the row of its name shows it, and without such a row it is
    what it was. -/
def Part.Shown (p : Part α) (rows : List (String × Value)) (a b : α) : Prop :=
  match rows.lookup p.name with
  | some v => p.shape.shows v (p.get b)
  | none => p.get b = p.get a

/-- The parts of a section have names of their own, which are words, are stored apart from
    each other and are all of it. -/
structure IsPartition (parts : List (Part α)) : Prop where
  distinct : (parts.map (·.name)).Nodup
  words : ∀ name ∈ parts.map (·.name), isPlainText name = true
  apart : ∀ p ∈ parts, ∀ q ∈ parts, p.name ≠ q.name → ∀ a b, q.get (p.store a b) = q.get a
  ext (a b : α) (h : ∀ p ∈ parts, p.get a = p.get b) : a = b

/-- The nodes of a row of a table. -/
def rowNode (row : String × Value) : Node × Node :=
  (.scalar none false row.1, valueNode row.2)

/-- The names of rows: those of parts, none twice and none that has been seen. -/
structure HasNames (parts : List (Part α)) (seen : List String)
    (rows : List (String × Value)) : Prop where
  distinct : (rows.map Prod.fst).Nodup
  fresh : ∀ row ∈ rows, row.1 ∉ seen
  known : ∀ row ∈ rows, row.1 ∈ parts.map (·.name)

/-- A name that has been seen is not the name of a row. -/
private theorem HasNames.notMem {seen : List String} {name : String}
    (h : HasNames parts (name :: seen) rows) : name ∉ rows.map Prod.fst := by
  intro hmem
  obtain ⟨row, hrow, hname⟩ := List.mem_map.mp hmem
  exact h.fresh row hrow (by simp [hname])

/-- The names of rows after a first one. -/
private theorem hasNames_cons_iff {seen : List String} {name : String} {v : Value} :
    HasNames parts seen ((name, v) :: rows) ↔
      (name ∉ seen ∧ name ∈ parts.map (·.name)) ∧ HasNames parts (name :: seen) rows := by
  constructor
  · rintro ⟨hdistinct, hfresh, hknown⟩
    rw [List.map_cons, List.nodup_cons] at hdistinct
    rw [List.forall_mem_cons] at hfresh hknown
    refine ⟨⟨hfresh.1, hknown.1⟩, hdistinct.2, fun row hrow => ?_, hknown.2⟩
    rw [List.mem_cons, not_or]
    refine ⟨fun hname => ?_, hfresh.2 row hrow⟩
    exact hdistinct.1 (List.mem_map.mpr ⟨row, hrow, hname⟩)
  · rintro ⟨⟨hnew, hmem⟩, hdistinct, hfresh, hknown⟩
    simp only [List.mem_cons, not_or] at hfresh
    refine ⟨?_, ?_, List.forall_mem_cons.mpr ⟨hmem, hknown⟩⟩
    · rw [List.map_cons, List.nodup_cons]
      refine ⟨?_, hdistinct⟩
      intro hname
      obtain ⟨row, hrow, hrowName⟩ := List.mem_map.mp hname
      exact (hfresh row hrow).1 hrowName
    · exact List.forall_mem_cons.mpr ⟨hnew, fun row hrow => (hfresh row hrow).2⟩

/-- A part of which rows show nothing is what it was. -/
private theorem Part.shown_of_notMem {p : Part α} (h : p.name ∉ rows.map Prod.fst) :
    p.Shown rows a b ↔ p.get b = p.get a := by
  rw [Part.Shown, Environment.lookup_eq_none h]

/-- What a first row shows is what it makes of its part, and what the other rows show of
    the parts afterwards. -/
private theorem shown_cons_iff (hparts : IsPartition parts) {p : Part α} (hp : p ∈ parts)
    (v : Value) (hnew : p.name ∉ rows.map Prod.fst) :
    (∀ q ∈ parts, q.Shown ((p.name, v) :: rows) a b) ↔
      ∃ x, p.shape.shows v x ∧ ∀ q ∈ parts, q.Shown rows (p.store a x) b := by
  have hself : p.Shown ((p.name, v) :: rows) a b ↔ p.shape.shows v (p.get b) := by
    rw [Part.Shown, List.lookup_cons_self]
  have hother {q : Part α} (hq : q ∈ parts) (hne : p.name ≠ q.name) (x : p.β) :
      q.Shown ((p.name, v) :: rows) a b ↔ q.Shown rows (p.store a x) b := by
    rw [Part.Shown, List.lookup_cons, beq_false_of_ne hne.symm]
    dsimp only
    rw [Part.Shown, hparts.apart p hp q hq hne]
  constructor
  · intro h
    refine ⟨p.get b, hself.mp (h p hp), fun q hq => ?_⟩
    by_cases hname : p.name = q.name
    · obtain rfl : p = q := List.inj_on_of_nodup_map hparts.distinct hp hq hname
      rw [Part.shown_of_notMem hnew, p.get_store]
    · exact (hother hq hname _).mp (h q hq)
  · rintro ⟨x, hx, h⟩ q hq
    by_cases hname : p.name = q.name
    · obtain rfl : p = q := List.inj_on_of_nodup_map hparts.distinct hp hq hname
      have hget := (Part.shown_of_notMem hnew).mp (h p hp)
      rw [p.get_store] at hget
      rw [hself, hget]
      exact hx
    · exact (hother hq hname x).mpr (h q hq)

/-- The rows of a section are decoded when they show its parts. The induction carries what
    has been stored so far, and the names of the rows before. -/
theorem decodeEntries_rows_iff (hparts : IsPartition parts)
    (hrows : ∀ row ∈ rows, IsUntagged row.2) (path : NodePath) (seen names : List String) :
    decodeEntries (parts.map Part.field) path seen a (rows.map rowNode) = .ok (names, b) ↔
      names = (rows.map Prod.fst).reverse ++ seen ∧ HasNames parts seen rows ∧
        ∀ p ∈ parts, p.Shown rows a b := by
  -- the rows before are in `seen`, and `a` holds what they have stored
  induction rows generalizing seen a with
  | nil =>
    have hnames : HasNames parts seen [] :=
      ⟨List.nodup_nil, List.forall_mem_nil _, List.forall_mem_nil _⟩
    have hsame : (∀ p ∈ parts, p.Shown [] a b) ↔ a = b := by
      constructor
      · intro h
        exact hparts.ext a b fun p hp => ((Part.shown_of_notMem (by simp)).mp (h p hp)).symm
      · rintro rfl p hp
        exact (Part.shown_of_notMem (by simp)).mpr rfl
    rw [hsame]
    simp [decodeEntries, hnames, eq_comm]
  | cons row rows ih =>
    obtain ⟨name, v⟩ := row
    rw [List.forall_mem_cons] at hrows
    have hname : fieldName path (.scalar none false name) = .ok name := rfl
    have hfields : (parts.map Part.field).find? (·.name == name) =
        (parts.find? (·.name == name)).map Part.field := List.find?_map ..
    rw [List.map_cons, rowNode, hasNames_cons_iff]
    cases hfind : parts.find? (·.name == name) with
    | none =>
      have hunknown : name ∉ parts.map (·.name) := by
        intro hmem
        obtain ⟨p, hp, hpname⟩ := List.mem_map.mp hmem
        exact List.find?_eq_none.mp hfind p hp (beq_iff_eq.mpr hpname)
      simp [decodeEntries, hname, hfields, hfind, hunknown, bind, Except.bind]
    | some p =>
      have hp : p ∈ parts := List.mem_of_find?_eq_some hfind
      obtain rfl : p.name = name := by simpa using List.find?_some hfind
      have hknown : p.name ∈ parts.map (·.name) := List.mem_map_of_mem hp
      by_cases hseen : p.name ∈ seen
      · simp [decodeEntries, hname, hfields, hfind, hseen, bind, Except.bind]
      have hstep : decodeEntries (parts.map Part.field) path seen a
          ((.scalar none false p.name, valueNode v) :: rows.map rowNode) =
            p.store a <$> p.shape.decode (.key p.name :: path) (valueNode v) >>= fun a =>
              decodeEntries (parts.map Part.field) path (p.name :: seen) a (rows.map rowNode) := by
        rw [decodeEntries, hname]
        simp only [bind, Except.bind, hfields, hfind, Option.map_some, List.contains_eq_mem,
          hseen, decide_false, Bool.false_eq_true, if_false]
        rfl
      rw [hstep, bind_eq_ok_iff]
      simp only [map_eq_ok_iff, p.shape.decode_iff hrows.1, ih hrows.2]
      constructor
      · rintro ⟨_, ⟨x, hx, rfl⟩, rfl, hnames, hshown⟩
        refine ⟨by simp, ⟨⟨hseen, hknown⟩, hnames⟩, ?_⟩
        exact (shown_cons_iff hparts hp v hnames.notMem).mpr ⟨x, hx, hshown⟩
      · rintro ⟨rfl, ⟨-, hnames⟩, hshown⟩
        obtain ⟨x, hx, hshown'⟩ := (shown_cons_iff hparts hp v hnames.notMem).mp hshown
        exact ⟨_, ⟨x, hx, rfl⟩, by simp, hnames, hshown'⟩

/-- The rows of a section: names of parts, none of them twice and no required one missing,
    that show what the parts are. -/
structure ShowsParts (parts : List (Part α)) (required : List String) (start : α)
    (rows : List (String × Value)) (b : α) : Prop where
  names : HasNames parts [] rows
  required : required ⊆ rows.map Prod.fst
  shown : ∀ p ∈ parts, p.Shown rows start b

/-- The node of a record. -/
theorem valueNode_record (rows : List (String × Value)) :
    valueNode (.record rows) = .mapping none (rows.map rowNode) := by
  have hentries : entryNodes (rows.map fun row => (.string row.1, row.2)) =
      rows.map rowNode := by
    induction rows with
    | nil => rfl
    | cons row rows ih =>
      rw [List.map_cons, entryNodes, ih]
      rfl
  exact congrArg (Node.mapping none) hentries

/-- A section is decoded from the rows that show its parts. -/
theorem decodeSection_record_iff (hparts : IsPartition parts)
    (hrows : ∀ row ∈ rows, IsUntagged row.2) (title : String) (required : List String)
    (start : α) (path : NodePath) :
    decodeSection title (parts.map Part.field) required start path (valueNode (.record rows)) =
      .ok b ↔ ShowsParts parts required start rows b := by
  rw [valueNode_record, decodeSection]
  simp only [Node.target]
  rw [bind_eq_ok_iff]
  constructor
  · intro ⟨entries, hentries, hsection⟩
    obtain rfl : rows.map rowNode = entries := Except.ok.inj hentries
    obtain ⟨⟨names, a⟩, hread, hmissing⟩ := bind_eq_ok_iff.mp hsection
    split at hmissing
    · cases hmissing
    · rename_i hnone
      obtain rfl : a = b := Except.ok.inj hmissing
      obtain ⟨rfl, hnames, hshown⟩ := (decodeEntries_rows_iff hparts hrows path [] names).mp hread
      refine ⟨hnames, fun name hname => ?_, hshown⟩
      simpa using List.find?_eq_none.mp hnone name hname
  · intro ⟨hnames, hrequired, hshown⟩
    have hread := (decodeEntries_rows_iff hparts hrows path [] _).mpr ⟨rfl, hnames, hshown⟩
    have hnone : required.find?
        (!((rows.map Prod.fst).reverse ++ []).contains ·) = none := by
      rw [List.find?_eq_none]
      intro name hname
      simpa using hrequired hname
    refine ⟨_, rfl, bind_eq_ok_iff.mpr ⟨_, hread, ?_⟩⟩
    simp only [hnone]

/-- A key that is taken for the name of a part is that name. -/
private theorem eq_string_of_fieldName (hparts : IsPartition parts) {key : Value}
    (h : IsUntagged key) {path : NodePath} {name : String}
    (hname : fieldName path (valueNode key) = .ok name) (hmem : name ∈ parts.map (·.name)) :
    key = .string name := by
  apply eq_string_of_text? h _ (hparts.words name hmem)
  obtain ⟨text, read, hbare⟩ | ⟨t, rfl⟩ | ⟨items, rfl⟩ | ⟨entries, rfl⟩ := isBare_or h
  · rw [hbare.node] at hname
    rw [hbare.text_eq, Except.ok.inj hname]
  · exact congrArg some (Except.ok.inj hname)
  · cases hname
  · cases hname

/-- The entries of a section that is decoded are the rows of a record. -/
private theorem exists_rows_of_decodeEntries (hparts : IsPartition parts)
    {entries : List (Value × Value)} (hkeys : ∀ entry ∈ entries, IsUntagged entry.1)
    {path : NodePath} {seen : List String} {r : List String × α}
    (h : decodeEntries (parts.map Part.field) path seen a (entryNodes entries) = .ok r) :
    ∃ rows : List (String × Value), entries = rows.map fun row => (.string row.1, row.2) := by
  induction entries generalizing seen a with
  | nil => exact ⟨[], rfl⟩
  | cons entry rest ih =>
    obtain ⟨key, v⟩ := entry
    rw [List.forall_mem_cons] at hkeys
    rw [entryNodes, decodeEntries] at h
    obtain ⟨name, hname, hread⟩ := bind_eq_ok_iff.mp h
    split at hread
    · cases hread
    · rename_i field hfield
      split at hread
      · cases hread
      obtain ⟨_, -, hrest⟩ := bind_eq_ok_iff.mp hread
      obtain ⟨rows, rfl⟩ := ih hkeys.2 hrest
      have hmem : name ∈ parts.map (·.name) := by
        obtain ⟨p, hp, hpfield⟩ := List.mem_map.mp (List.mem_of_find?_eq_some hfield)
        have hpname : field.name = name := by simpa using List.find?_some hfield
        exact List.mem_map.mpr ⟨p, hp, by rw [← hpname, ← hpfield]; rfl⟩
      obtain rfl := eq_string_of_fieldName hparts hkeys.1 hname hmem
      exact ⟨(name, v) :: rows, rfl⟩

/-- A section with the given parts. -/
def Shape.ofParts (title : String) (required : List String) (start : α)
    (hparts : IsPartition parts) : Shape α where
  decode := decodeSection title (parts.map Part.field) required start
  shows v b := ∃ rows, v = .record rows ∧ ShowsParts parts required start rows b
  decode_iff {v} h path b := by
    constructor
    · intro hread
      obtain ⟨text, read, hbare⟩ | ⟨t, rfl⟩ | ⟨items, rfl⟩ | ⟨entries, rfl⟩ := isBare_or h
      · rw [hbare.node] at hread
        simp [decodeSection, Node.ofPlain, Node.target, hbare.ne_empty, wrongType, bind,
          Except.bind] at hread
      · cases hread
      · cases hread
      · obtain ⟨rows, rfl⟩ : ∃ rows : List (String × Value),
            entries = rows.map fun row => (.string row.1, row.2) := by
          cases h with
          | mapping hkeys _ =>
            obtain ⟨_, hentries, hsection⟩ := bind_eq_ok_iff.mp hread
            obtain rfl := Except.ok.inj hentries
            obtain ⟨_, hrows, -⟩ := bind_eq_ok_iff.mp hsection
            exact exists_rows_of_decodeEntries hparts hkeys hrows
        have hrows := isUntagged_record_iff.mp h
        exact ⟨rows, rfl, (decodeSection_record_iff hparts hrows title required start path).mp hread⟩
    · rintro ⟨rows, rfl, hshown⟩
      rw [isUntagged_record_iff] at h
      exact (decodeSection_record_iff hparts h title required start path).mpr hshown

/-! ## The sections of a workflow -/

/-- The parts of a `logging` section. -/
def loggingParts : List (Part Logging) := [
  ⟨_, "stdout", levelShape, (·.stdout), fun a v => { a with stdout := v }, fun _ _ => rfl⟩,
  ⟨_, "file", levelShape, (·.file), fun a v => { a with file := v }, fun _ _ => rfl⟩]

theorem isPartition_loggingParts : IsPartition loggingParts where
  distinct := by decide
  words := by decide
  apart := by simp [loggingParts]
  ext a b h := by
    cases a
    simp_all [loggingParts]

/-- A `logging` section. -/
def loggingShape : Shape Logging :=
  .ofParts "LoggingSection" [] {} isPartition_loggingParts

/-- The parts of the `main` section. -/
def mainParts : List (Part MainSection) := [
  ⟨_, "num_episodes", countShape.optional, (·.numEpisodes),
    fun a v => { a with numEpisodes := v }, fun _ _ => rfl⟩,
  ⟨_, "num_steps", countShape.optional, (·.numSteps),
    fun a v => { a with numSteps := v }, fun _ _ => rfl⟩,
  ⟨_, "eval_schedule", scheduleShape.optional, (·.evalSchedule),
    fun a v => { a with evalSchedule := v }, fun _ _ => rfl⟩,
  ⟨_, "logging", loggingShape, (·.logging), fun a v => { a with logging := v },
    fun _ _ => rfl⟩]

theorem isPartition_mainParts : IsPartition mainParts where
  distinct := by decide
  words := by decide
  apart := by simp [mainParts]
  ext a b h := by
    cases a
    simp_all [mainParts]

/-- The `main` section. -/
def mainShape : Shape MainSection :=
  .ofParts "MainSection" [] {} isPartition_mainParts

/-- The parts of the controller. -/
def controllerParts : List (Part Controller) := [
  ⟨_, "host", textShape, (·.host), fun a v => { a with host := v }, fun _ _ => rfl⟩,
  ⟨_, "port", portShape, (·.port), fun a v => { a with port := v }, fun _ _ => rfl⟩]

theorem isPartition_controllerParts : IsPartition controllerParts where
  distinct := by decide
  words := by decide
  apart := by simp [controllerParts]
  ext a b h := by
    cases a
    simp_all [controllerParts]

/-- The controller. -/
def controllerShape : Shape Controller :=
  .ofParts "ControllerSection" ["host", "port"] ⟨"", 0⟩ isPartition_controllerParts

/-- The parts of `rollout.parallelism`. -/
def parallelismParts : List (Part Parallelism) := [
  ⟨_, "sampling", countShape, (·.sampling), fun a v => { a with sampling := v },
    fun _ _ => rfl⟩,
  ⟨_, "eval", countShape.optional, (·.eval), fun a v => { a with eval := v },
    fun _ _ => rfl⟩,
  ⟨_, "min_env_samples", countShape.optional, (·.minEnvSamples),
    fun a v => { a with minEnvSamples := v }, fun _ _ => rfl⟩,
  ⟨_, "grace_factor", numberShape.optional, (·.graceFactor),
    fun a v => { a with graceFactor := v }, fun _ _ => rfl⟩,
  ⟨_, "controller", controllerShape.optional, (·.controller),
    fun a v => { a with controller := v }, fun _ _ => rfl⟩]

theorem isPartition_parallelismParts : IsPartition parallelismParts where
  distinct := by decide
  words := by decide
  apart := by simp [parallelismParts]
  ext a b h := by
    cases a
    simp_all [parallelismParts]

/-- The section `rollout.parallelism`. -/
def parallelismShape : Shape Parallelism :=
  .ofParts "ParallelismSection" [] {} isPartition_parallelismParts

/-- The parts of the `rollout` section. -/
def rolloutParts : List (Part RolloutSection) := [
  ⟨_, "parallelism", parallelismShape.optional, (·.parallelism),
    fun a v => { a with parallelism := v }, fun _ _ => rfl⟩,
  ⟨_, "logging", loggingShape, (·.logging), fun a v => { a with logging := v },
    fun _ _ => rfl⟩]

theorem isPartition_rolloutParts : IsPartition rolloutParts where
  distinct := by decide
  words := by decide
  apart := by simp [rolloutParts]
  ext a b h := by
    cases a
    simp_all [rolloutParts]

/-- The `rollout` section. -/
def rolloutShape : Shape RolloutSection :=
  .ofParts "RolloutSection" [] {} isPartition_rolloutParts

/-- The parts of `training.checkpointing`. -/
def checkpointingParts : List (Part Checkpointing) := [
  ⟨_, "path", pathShape, (·.path), fun a v => { a with path := v }, fun _ _ => rfl⟩,
  ⟨_, "interval", countShape, (·.interval), fun a v => { a with interval := v },
    fun _ _ => rfl⟩]

theorem isPartition_checkpointingParts : IsPartition checkpointingParts where
  distinct := by decide
  words := by decide
  apart := by simp [checkpointingParts]
  ext a b h := by
    cases a
    simp_all [checkpointingParts]

/-- The section `training.checkpointing`. -/
def checkpointingShape : Shape Checkpointing :=
  .ofParts "Checkpointing" ["path", "interval"] ⟨⟨""⟩, 0⟩ isPartition_checkpointingParts

/-- The parts of `training.proxy`. -/
def proxyParts : List (Part Proxy) := [
  ⟨_, "host", textShape, (·.host), fun a v => { a with host := v }, fun _ _ => rfl⟩,
  ⟨_, "frontend", portShape, (·.frontend), fun a v => { a with frontend := v },
    fun _ _ => rfl⟩,
  ⟨_, "backend", portShape, (·.backend), fun a v => { a with backend := v },
    fun _ _ => rfl⟩]

theorem isPartition_proxyParts : IsPartition proxyParts where
  distinct := by decide
  words := by decide
  apart := by simp [proxyParts]
  ext a b h := by
    cases a
    simp_all [proxyParts]

/-- The section `training.proxy`. -/
def proxyShape : Shape Proxy :=
  .ofParts "ProxySection" ["host", "frontend", "backend"] ⟨"", 0, 0⟩ isPartition_proxyParts

/-- The parts of the `training` section. -/
def trainingParts : List (Part TrainingSection) := [
  ⟨_, "mode", modeShape, (·.mode), fun a v => { a with mode := v }, fun _ _ => rfl⟩,
  ⟨_, "load_path", pathShape.optional, (·.loadPath), fun a v => { a with loadPath := v },
    fun _ _ => rfl⟩,
  ⟨_, "load_episode", countShape.optional, (·.loadEpisode),
    fun a v => { a with loadEpisode := v }, fun _ _ => rfl⟩,
  ⟨_, "checkpointing", checkpointingShape.optional, (·.checkpointing),
    fun a v => { a with checkpointing := v }, fun _ _ => rfl⟩,
  ⟨_, "proxy", proxyShape.optional, (·.proxy), fun a v => { a with proxy := v },
    fun _ _ => rfl⟩,
  ⟨_, "num_workers", countShape.optional, (·.numWorkers),
    fun a v => { a with numWorkers := v }, fun _ _ => rfl⟩,
  ⟨_, "logging", loggingShape, (·.logging), fun a v => { a with logging := v },
    fun _ _ => rfl⟩]

theorem isPartition_trainingParts : IsPartition trainingParts where
  distinct := by decide
  words := by decide
  apart := by simp [trainingParts]
  ext a b h := by
    cases a
    simp_all [trainingParts]

/-- The `training` section. -/
def trainingShape : Shape TrainingSection :=
  .ofParts "TrainingSection" [] {} isPartition_trainingParts

/-- The parts of a document. -/
def workflowParts : List (Part Workflow) := [
  ⟨_, "job", textShape, (·.job), fun a v => { a with job := v }, fun _ _ => rfl⟩,
  ⟨_, "scenario_path", pathShape, (·.scenarioPath), fun a v => { a with scenarioPath := v },
    fun _ _ => rfl⟩,
  ⟨_, "log_path", pathShape, (·.logPath), fun a v => { a with logPath := v },
    fun _ _ => rfl⟩,
  ⟨_, "main", mainShape, (·.main), fun a v => { a with main := v }, fun _ _ => rfl⟩,
  ⟨_, "rollout", rolloutShape, (·.rollout), fun a v => { a with rollout := v },
    fun _ _ => rfl⟩,
  ⟨_, "training", trainingShape, (·.training), fun a v => { a with training := v },
    fun _ _ => rfl⟩]

theorem isPartition_workflowParts : IsPartition workflowParts where
  distinct := by decide
  words := by decide
  apart := by simp [workflowParts]
  ext a b h := by
    cases a
    simp_all [workflowParts]

/-- A document, its required fields being there. That they are not null is left to
    `checkRequired`. -/
def workflowShape : Shape Workflow :=
  .ofParts "Workflow" requiredFields (.minimal "" ⟨""⟩ ⟨""⟩) isPartition_workflowParts

/-- The shape of a document decodes with the fields of the schema. -/
theorem workflowShape_decode (n : Node) : workflowShape.decode [] n = Workflow.decode n :=
  rfl

/-- A field of a record is missing when it is not there, or null. -/
private theorem isMissing_record_iff (name : String) :
    isMissing (rows.map fun row => (.string row.1, row.2)) name = true ↔
      name ∉ rows.map Prod.fst ∨ rows.lookup name = some .null := by
  rw [isMissing, Value.find?_record]
  cases hlookup : rows.lookup name with
  | none =>
    simp [Environment.lookup_eq_none_iff.mp hlookup]
  | some v =>
    have hmem : name ∈ rows.map Prod.fst :=
      List.mem_map_of_mem (Environment.mem_of_lookup_eq_some hlookup)
    cases v <;> simp [Value.isNull, hmem]

/-- Data that shows a workflow: a record whose rows show the fields and sections, none of
    the required ones being null. -/
def Workflow.ShownBy (w : Workflow) (v : Value) : Prop :=
  ∃ rows, v = .record rows ∧ (∀ name ∈ requiredFields, rows.lookup name ≠ some .null) ∧
    ShowsParts workflowParts requiredFields (.minimal "" ⟨""⟩ ⟨""⟩) rows w

/-- The required fields are there and not null when none of them is missing. -/
private theorem checkRequired_record_iff :
    checkRequired (.record rows) = .ok () ↔ requiredFields ⊆ rows.map Prod.fst ∧
      ∀ name ∈ requiredFields, rows.lookup name ≠ some .null := by
  have hcheck : checkRequired (.record rows) = .ok () ↔
      ∀ name ∈ requiredFields,
        ¬ isMissing (rows.map fun row => (.string row.1, row.2)) name = true := by
    rw [← List.find?_eq_none]
    unfold Value.record checkRequired
    dsimp only
    split
    · rename_i name hname
      rw [show requiredFields.find? _ = some name from hname]
      simp
    · rename_i hnone
      simp [show requiredFields.find? _ = none from hnone]
  rw [hcheck]
  simp only [isMissing_record_iff, not_or, not_not]
  exact ⟨fun h => ⟨fun name hname => (h name hname).1, fun name hname => (h name hname).2⟩,
    fun h name hname => ⟨h.1 hname, h.2 name hname⟩⟩

/-- Data is decoded to the workflow that it shows. -/
theorem Workflow.ofValue_eq_ok_iff {v : Value} (h : IsUntagged v) (w : Workflow) :
    ofValue v = .ok w ↔ w.ShownBy v := by
  have hdecode : decodeDocument (valueNode v) = .ok w ↔ workflowShape.shows v w := by
    rw [← workflowShape.decode_iff h [], workflowShape_decode, decodeDocument]
    cases Workflow.decode (valueNode v) <;> simp
  rw [ofValue_eq h.hasNestedTag_eq, bind_eq_ok_iff]
  constructor
  · rintro ⟨_, hrequired, hread⟩
    obtain ⟨rows, rfl, hshown⟩ := hdecode.mp hread
    exact ⟨rows, rfl, (checkRequired_record_iff.mp hrequired).2, hshown⟩
  · rintro ⟨rows, rfl, hnull, hshown⟩
    exact ⟨(), checkRequired_record_iff.mpr ⟨hshown.required, hnull⟩,
      hdecode.mpr ⟨rows, rfl, hshown⟩⟩

end RunPlan
