import RunPlan.Settings.Override

/-!
# Settings are plain data

Whatever a document holds, its settings have no tags, and the keys of their mappings are
texts (`IsSettings`). Merging layers keeps it that way.

## Key results

- `isSettings_treeOf`: the tree of a node is plain data
- `isSettings_overlay`: a layer of plain data over plain data is plain data
- `isSettings_layered`: so are the settings of a document with variables over it
-/

namespace RunPlan.Settings

open Yaml

/-- Data as settings have it: nothing is tagged, the keys of mappings are texts, and
    integers have 64 bits. -/
inductive IsSettings : Value → Prop where
  | null : IsSettings .null
  | bool (b : Bool) : IsSettings (.bool b)
  | int {n : Int} (hlow : -2 ^ 63 ≤ n) (hhigh : n < 2 ^ 63) : IsSettings (.int n)
  | float (x : Binary64) : IsSettings (.float x)
  | string (s : String) : IsSettings (.string s)
  | sequence {items : List Value} (h : ∀ v ∈ items, IsSettings v) : IsSettings (.sequence items)
  | mapping {entries : List (Value × Value)}
      (hkeys : ∀ entry ∈ entries, ∃ name, entry.1 = .string name)
      (h : ∀ entry ∈ entries, IsSettings entry.2) : IsSettings (.mapping entries)

/-- A table is a record of plain data. -/
theorem IsSettings.exists_record {entries : List (Value × Value)}
    (h : IsSettings (.mapping entries)) :
    ∃ rows : List (String × Value), Value.mapping entries = .record rows := by
  cases h with
  | mapping hkeys h =>
    clear h
    induction entries with
    | nil => exact ⟨[], rfl⟩
    | cons entry rest ih =>
      rw [List.forall_mem_cons] at hkeys
      obtain ⟨⟨name, hname⟩, hkeys⟩ := hkeys
      obtain ⟨rows, hrows⟩ := ih hkeys
      obtain rfl := Value.mapping.inj hrows
      obtain ⟨key, v⟩ := entry
      obtain rfl : key = .string name := hname
      exact ⟨(name, v) :: rows, rfl⟩

/-- A record is plain data when its rows are. -/
theorem isSettings_record_iff {rows : List (String × Value)} :
    IsSettings (.record rows) ↔ ∀ row ∈ rows, IsSettings row.2 := by
  constructor
  · intro h
    cases h with
    | mapping _ h => exact fun row hrow => h _ (List.mem_map_of_mem hrow)
  · intro h
    refine .mapping ?_ ?_
    · intro entry hentry
      obtain ⟨row, -, rfl⟩ := List.mem_map.mp hentry
      exact ⟨row.1, rfl⟩
    · intro entry hentry
      obtain ⟨row, hrow, rfl⟩ := List.mem_map.mp hentry
      exact h row hrow

/-! ## Trees of nodes -/

/-- An integer that can be read has 64 bits. -/
private theorem isSettings_readSigned? {base : Nat} {cs : List Char} {n : Int}
    (h : Numeral.readSigned? base cs = some n) : IsSettings (.int n) := by
  unfold Numeral.readSigned? at h
  split at h
  · split at h
    · split at h
      · obtain rfl := Option.some.inj h
        exact .int (by omega) (by omega)
      · cases h
    · cases h
  · obtain ⟨m, hm, rfl⟩ := Option.map_eq_some_iff.mp h
    simp only [Numeral.readUnsigned?] at hm
    split at hm
    · split at hm
      · obtain rfl := Option.some.inj hm
        simp only [Int.ofNat_eq_natCast]
        exact .int (by omega) (by omega)
      · cases hm
    · cases hm

/-- An integer with a prefix has 64 bits. -/
private theorem isSettings_readPrefixed? {cs : List Char} {n : Int}
    (h : readPrefixed? cs = some n) : IsSettings (.int n) := by
  unfold readPrefixed? at h
  split at h
  · exact isSettings_readSigned? h
  · exact isSettings_readSigned? h
  · exact isSettings_readSigned? h
  · cases h

/-- The values that a plain scalar can have. -/
inductive IsPlainValue (text : String) : Value → Prop where
  | int {n : Int} (h : readPrefixed? text.toList = some n ∨
      Numeral.readSigned? 10 text.toList = some n) : IsPlainValue text (.int n)
  | null (h : text = "" ∨ text = "~" ∨ text = "null") : IsPlainValue text .null
  | bool (b : Bool) : IsPlainValue text (.bool b)
  | float (x : Binary64) : IsPlainValue text (.float x)
  | string : IsPlainValue text (.string text)

theorem isPlainValue_of_plainValue {text : String} {v : Value} (h : plainValue text = some v) :
    IsPlainValue text v := by
  simp only [plainValue] at h
  split at h
  · rename_i n hn
    obtain rfl := Option.some.inj h
    exact .int (.inl hn)
  split at h
  · rename_i hnull
    obtain rfl := Option.some.inj h
    exact .null hnull
  split at h
  · obtain rfl := Option.some.inj h
    exact .bool true
  split at h
  · obtain rfl := Option.some.inj h
    exact .bool false
  split at h
  · rename_i n hn
    obtain rfl := Option.some.inj h
    exact .int (.inr hn)
  split at h
  · cases h
  split at h
  · obtain rfl := Option.some.inj h
    exact .float _
  · obtain rfl := Option.some.inj h
    exact .string

/-- A plain scalar is plain data. -/
private theorem isSettings_plainValue {text : String} {v : Value}
    (h : plainValue text = some v) : IsSettings v := by
  cases isPlainValue_of_plainValue h with
  | int hn =>
    cases hn with
    | inl hn => exact isSettings_readPrefixed? hn
    | inr hn => exact isSettings_readSigned? hn
  | null => exact .null
  | bool b => exact .bool b
  | float x => exact .float x
  | string => exact .string text

/-- A scalar of a forced kind is plain data. -/
private theorem isSettings_coreValue {tag : CoreTag} {text : String} {v : Value}
    (h : coreValue tag text = some v) : IsSettings v := by
  cases tag with
  | bool =>
    obtain rfl := Option.some.inj h
    split
    · exact .bool true
    split
    · exact .bool false
    · exact .null
  | int =>
    obtain rfl := Option.some.inj h
    cases hn : Numeral.readSigned? 10 text.toList with
    | none => exact .null
    | some n => exact isSettings_readSigned? hn
  | float =>
    change (if isSpecialFloat text then none
      else some (((readFloat? text.toList).map Value.float).getD .null)) = some v at h
    split at h
    · cases h
    · obtain rfl := Option.some.inj h
      cases readFloat? text.toList with
      | none => exact .null
      | some x => exact .float x
  | null =>
    obtain rfl := Option.some.inj h
    exact .null

/-- A scalar is plain data. -/
theorem isSettings_scalarValue {tag : Option String} {plain : Bool} {text : String} {v : Value}
    (h : scalarValue tag plain text = some v) : IsSettings v := by
  unfold scalarValue at h
  split at h
  · obtain rfl := Option.some.inj h
    exact .string text
  · split at h
    · exact isSettings_plainValue h
    · exact isSettings_coreValue h
    · obtain rfl := Option.some.inj h
      exact .string text

mutual

/-- The tree of a node is plain data. -/
theorem isSettings_treeOf : ∀ {n : Node} {v : Value}, treeOf n = some v → IsSettings v
  | .scalar _ _ _, _, h => isSettings_scalarValue h
  | .sequence _ items, _, h => by
    obtain ⟨vs, hvs, rfl⟩ := Option.map_eq_some_iff.mp h
    exact .sequence (isSettings_treeItems hvs)
  | .mapping _ entries, _, h => by
    obtain ⟨vs, hvs, rfl⟩ := Option.map_eq_some_iff.mp h
    obtain ⟨hkeys, hvalues⟩ := isSettings_treeEntries hvs
    exact .mapping hkeys hvalues
  | .reference (some target), _, h => isSettings_treeOf (n := target) h
  | .reference none, _, h => by
    obtain rfl := Option.some.inj h
    exact .null

/-- The trees of items are plain data. -/
theorem isSettings_treeItems : ∀ {ns : List Node} {vs : List Value}, treeItems ns = some vs →
    ∀ v ∈ vs, IsSettings v
  | [], _, h => by
    obtain rfl := Option.some.inj h
    exact List.forall_mem_nil _
  | n :: ns, _, h => by
    unfold treeItems at h
    split at h
    · rename_i v vs hv hvs
      obtain rfl := Option.some.inj h
      rw [List.forall_mem_cons]
      exact ⟨isSettings_treeOf hv, isSettings_treeItems hvs⟩
    · cases h

/-- The trees of entries have texts as keys, and are plain data. -/
theorem isSettings_treeEntries : ∀ {es : List (Node × Node)} {vs : List (Value × Value)},
    treeEntries es = some vs →
      (∀ entry ∈ vs, ∃ name, entry.1 = .string name) ∧ ∀ entry ∈ vs, IsSettings entry.2
  | [], _, h => by
    obtain rfl := Option.some.inj h
    exact ⟨List.forall_mem_nil _, List.forall_mem_nil _⟩
  | (k, n) :: es, _, h => by
    unfold treeEntries at h
    split at h
    · rename_i key v vs hkey hv hvs
      obtain rfl := Option.some.inj h
      obtain ⟨hkeys, hvalues⟩ := isSettings_treeEntries hvs
      rw [List.forall_mem_cons, List.forall_mem_cons]
      exact ⟨⟨⟨key, rfl⟩, hkeys⟩, isSettings_treeOf hv, hvalues⟩
    · cases h

end

/-! ## Merging -/

/-- The entries of plain data are those of a table. -/
private theorem isSettings_tableEntries {v : Value} (h : IsSettings v) :
    IsSettings (.mapping (tableEntries v)) := by
  cases h with
  | mapping hkeys h => exact .mapping hkeys h
  | _ => exact .mapping (List.forall_mem_nil _) (List.forall_mem_nil _)

/-- The items of plain data are plain data. -/
private theorem isSettings_listItems {v : Value} (h : IsSettings v) :
    ∀ item ∈ listItems v, IsSettings item := by
  cases h with
  | sequence h => exact h
  | _ => exact List.forall_mem_nil _

/-- What stands in a table is plain data. -/
private theorem isSettings_find? {entries : List (Value × Value)} {name : String} {v : Value}
    (h : IsSettings (.mapping entries)) (hfind : Value.find? entries name = some v) :
    IsSettings v := by
  cases h with
  | mapping _ h =>
    obtain ⟨entry, hentry, rfl⟩ := Option.map_eq_some_iff.mp hfind
    exact h entry (List.mem_of_find?_eq_some hentry)

/-- A table with an entry replaced is plain data. -/
private theorem isSettings_setEntry {entries : List (Value × Value)} {v : Value}
    (h : IsSettings (.mapping entries)) (hv : IsSettings v) (name : String) :
    IsSettings (.mapping (Value.setEntry name v entries)) := by
  cases h with
  | mapping hkeys h =>
    induction entries with
    | nil =>
      refine .mapping ?_ ?_
      · simp [Value.setEntry]
      · simpa [Value.setEntry] using hv
    | cons entry rest ih =>
      rw [List.forall_mem_cons] at hkeys h
      rw [Value.setEntry]
      split
      · refine .mapping ?_ ?_
        · exact List.forall_mem_cons.mpr hkeys
        · exact List.forall_mem_cons.mpr ⟨hv, h.2⟩
      · cases ih hkeys.2 h.2 with
        | mapping hkeys' h' =>
          refine .mapping ?_ ?_
          · exact List.forall_mem_cons.mpr ⟨hkeys.1, hkeys'⟩
          · exact List.forall_mem_cons.mpr ⟨h.1, h'⟩

mutual

/-- A table with an entry set is plain data. -/
theorem isSettings_setChild (name : String) {table : Value} (ht : IsSettings table) :
    ∀ {v : Value}, IsSettings v → IsSettings (setChild name table v)
  | .mapping incoming, .mapping hkeys h => by
    have hold : IsSettings ((Value.find? (tableEntries table) (Text.toLower name)).getD
        (.mapping [])) := by
      cases hfind : Value.find? (tableEntries table) (Text.toLower name) with
      | none => exact .mapping (List.forall_mem_nil _) (List.forall_mem_nil _)
      | some old => exact isSettings_find? (isSettings_tableEntries ht) hfind
    exact isSettings_setEntry (isSettings_tableEntries ht)
      (isSettings_setChildren hold hkeys h) _
  | .null, hv => isSettings_setEntry (isSettings_tableEntries ht) hv _
  | .bool _, hv => isSettings_setEntry (isSettings_tableEntries ht) hv _
  | .int _, hv => isSettings_setEntry (isSettings_tableEntries ht) hv _
  | .float _, hv => isSettings_setEntry (isSettings_tableEntries ht) hv _
  | .string _, hv => isSettings_setEntry (isSettings_tableEntries ht) hv _
  | .sequence _, hv => isSettings_setEntry (isSettings_tableEntries ht) hv _

/-- A table with several entries set is plain data. -/
theorem isSettings_setChildren {table : Value} (ht : IsSettings table) :
    ∀ {rows : List (Value × Value)}, (∀ row ∈ rows, ∃ name, row.1 = .string name) →
      (∀ row ∈ rows, IsSettings row.2) → IsSettings (setChildren table rows)
  | [], _, _ => ht
  | (key, v) :: rest, hkeys, h => by
    rw [List.forall_mem_cons] at hkeys h
    obtain ⟨⟨name, hname⟩, hkeys⟩ := hkeys
    obtain rfl : key = .string name := hname
    exact isSettings_setChildren (isSettings_setChild name ht h.1) hkeys h.2

end

/-- A list with an item replaced is plain data. -/
private theorem isSettings_setItem {items : List Value} {v : Value}
    (h : ∀ item ∈ items, IsSettings item) (hv : IsSettings v) (place : Nat) :
    ∀ item ∈ setItem place v items, IsSettings item := by
  intro item hitem
  rcases List.mem_or_eq_of_mem_set hitem with hmem | rfl
  · rcases List.mem_append.mp hmem with hmem | hmem
    · exact h item hmem
    · obtain rfl := List.eq_of_mem_replicate hmem
      exact .null
  · exact hv

/-- A tree with the value at a path set is plain data. -/
theorem isSettings_setPath {v : Value} (hv : IsSettings v) (path : List Selector) :
    ∀ {root : Value}, IsSettings root → IsSettings (setPath v path root) := by
  induction path with
  | nil => exact fun _ => hv
  | cons step steps ih =>
    intro root hroot
    cases step with
    | item index =>
      have hitems := isSettings_listItems hroot
      refine .sequence (isSettings_setItem hitems (ih ?_) _)
      rw [List.getD_eq_getElem?_getD]
      cases hget : (listItems root)[placeOf index (listItems root).length]? with
      | none => exact .null
      | some item => exact hitems item (List.mem_of_getElem? hget)
    | name key =>
      cases steps with
      | nil => exact isSettings_setChild key hroot hv
      | cons next steps =>
        have htable := isSettings_tableEntries hroot
        refine isSettings_setEntry htable (ih ?_) key
        cases hfind : Value.find? (tableEntries root) key with
        | none => exact .null
        | some old => exact isSettings_find? htable hfind

/-- A layer of plain data over plain data is plain data. -/
theorem isSettings_overlay {root : Value} (hroot : IsSettings root)
    {layer : List (String × Value)} (h : ∀ setting ∈ layer, IsSettings setting.2) :
    IsSettings (overlay root layer) := by
  induction layer generalizing root with
  | nil => exact hroot
  | cons setting rest ih =>
    rw [List.forall_mem_cons] at h
    exact ih (isSettings_setPath h.1 _ hroot) h.2

/-- The value of a variable is plain data. -/
theorem isSettings_variableValue (text : String) : IsSettings (variableValue text) := by
  simp only [variableValue]
  split
  · exact .bool true
  split
  · exact .bool false
  split
  · rename_i n hn
    exact isSettings_readSigned? hn
  split
  · exact .float _
  · exact .string text

/-- A table without entries is plain data. -/
theorem isSettings_empty : IsSettings (.mapping []) :=
  .mapping (List.forall_mem_nil _) (List.forall_mem_nil _)

/-- The layer of a document is plain data. -/
theorem isSettings_documentLayer {entries : List (Value × Value)}
    (h : ∀ entry ∈ entries, IsSettings entry.2) :
    ∀ setting ∈ documentLayer entries, IsSettings setting.2 := by
  intro setting hsetting
  obtain ⟨⟨key, v⟩, hentry, hkey⟩ := List.mem_filterMap.mp hsetting
  cases key with
  | string name =>
    obtain rfl : (name, v) = setting := Option.some.inj hkey
    exact h _ hentry
  | _ => cases hkey

/-- The layer of the environment is plain data. -/
theorem isSettings_environmentLayer (overrides : List (String × String)) :
    ∀ setting ∈ environmentLayer overrides, IsSettings setting.2 := by
  intro setting hsetting
  obtain ⟨⟨name, text⟩, -, hvariable⟩ := List.mem_filterMap.mp hsetting
  obtain ⟨rest, -, rfl⟩ := Option.map_eq_some_iff.mp hvariable
  exact isSettings_variableValue text

/-- The settings of a document with variables over it are plain data. -/
theorem isSettings_layered {entries : List (Value × Value)}
    (h : ∀ entry ∈ entries, IsSettings entry.2) (overrides : List (String × String)) :
    IsSettings (layered entries overrides) :=
  isSettings_overlay (isSettings_overlay isSettings_empty (isSettings_documentLayer h))
    (isSettings_environmentLayer overrides)

end RunPlan.Settings
