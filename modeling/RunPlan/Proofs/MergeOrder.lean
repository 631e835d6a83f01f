import RunPlan.Proofs.Entries
import RunPlan.Proofs.LayerSettings
import RunPlan.Proofs.RowOrder
import RunPlan.Settings.Order

/-!
# The order of merging

The settings of a document are the same in whatever order its tables are gone through. Where
no two of its keys are for one setting (`KeysApart`), these settings are changes at paths that
are no part of each other, which come in any order. Nor does it matter in which order the
tables of the merged settings are gone through, as no name is there twice.

## Key results

- `sameSettings_document`: a document has the same settings in any order
- `reordered_layered_entries`: it is merged the same when no two keys are for one setting
- `reordered_tree`: what is merged is handed on the same
-/

namespace RunPlan.Settings

open Value (modify Reordered SameItem SameChange)

/-! ## Keys for one setting -/

/-- Paths of which none is a part of the other. -/
def Apart (names names' : List String) : Prop :=
  ¬ names <+: names' ∧ ¬ names' <+: names

instance (names names' : List String) : Decidable (Apart names names') :=
  inferInstanceAs (Decidable (_ ∧ _))

/-- No two keys of a document are for one setting, or for a setting and a part of it. A key
    with an index is for the whole list. -/
def KeysApart (document : List (Value × Value)) : Prop :=
  (layerSettings (documentLayer document)).Pairwise fun a b => Apart a.names b.names

instance (document : List (Value × Value)) : Decidable (KeysApart document) :=
  inferInstanceAs (Decidable (List.Pairwise ..))

/-! ## Settings that are put alike -/

/-- Settings at the same names that come to the same, up to the order of rows. -/
structure Setting.Alike (s s' : Setting) : Prop where
  names : s'.names = s.names
  change : SameChange s.change s'.change

/-- A setting that is like another one keeps data the same but for the order of rows. -/
theorem Setting.Alike.right {s s' : Setting} (h : s.Alike s') : s'.Alike s' :=
  ⟨rfl, h.change.right⟩

/-- Settings that are alike, in another order. -/
def SameSettings (l l' : List Setting) : Prop :=
  ∃ m, List.Forall₂ Setting.Alike l m ∧ m.Perm l'

theorem SameSettings.append {l l' m m' : List Setting} (h : SameSettings l l')
    (h' : SameSettings m m') : SameSettings (l ++ m) (l' ++ m') := by
  obtain ⟨k, hk, hperm⟩ := h
  obtain ⟨k', hk', hperm'⟩ := h'
  exact ⟨k ++ k', List.rel_append hk hk', hperm.append hperm'⟩

theorem SameSettings.perm {l l' m : List Setting} (h : SameSettings l l') (hperm : l'.Perm m) :
    SameSettings l m := by
  obtain ⟨k, hk, hperm'⟩ := h
  exact ⟨k, hk, hperm'.trans hperm⟩

theorem SameSettings.of_alike {s s' : Setting} (h : s.Alike s') : SameSettings [s] [s'] :=
  ⟨[s'], .cons h .nil, .rfl⟩

/-- Settings that are alike are put one after the other. -/
private theorem reordered_putAll {l l' : List Setting} (h : List.Forall₂ Setting.Alike l l')
    {root root' : Value} (hroot : Reordered root root') :
    Reordered (putAll root l) (putAll root' l') := by
  induction h generalizing root root' with
  | nil => exact hroot
  | @cons s s' _ _ hs _ ih =>
    have hset : Reordered (modify s.change s.names (some root))
        (modify s'.change s'.names (some root')) := by
      rw [hs.names]
      exact hs.change.modify s.names (.some hroot)
    exact ih hset

/-- Settings at paths that are apart are put in any order. -/
theorem SameSettings.reordered_putAll {l l' : List Setting} (h : SameSettings l l')
    (hapart : l.Pairwise fun a b => Apart a.names b.names) (root : Value) :
    Reordered (putAll root l) (putAll root l') := by
  obtain ⟨m, hm, hperm⟩ := h
  have hnames : m.map Setting.names = l.map Setting.names := by
    clear hapart hperm
    induction hm with
    | nil => rfl
    | cons hs _ ih => rw [List.map_cons, List.map_cons, hs.names, ih]
  have hkeep : ∀ s ∈ m, ∀ root root', Reordered root root' →
      Reordered (modify s.change s.names (some root)) (modify s.change s.names (some root')) := by
    intro s hs root root' hroot
    obtain ⟨first, -, halike⟩ := exists_mem_of_forall₂ hm s hs
    exact halike.right.change.modify s.names (.some hroot)
  have hcomm : m.Pairwise fun a b => ∀ root, Reordered
      (modify b.change b.names (some (modify a.change a.names (some root))))
      (modify a.change a.names (some (modify b.change b.names (some root)))) := by
    have hapart' : m.Pairwise fun a b => Apart a.names b.names := by
      rwa [← List.pairwise_map (f := Setting.names) (R := Apart), hnames, List.pairwise_map]
    exact hapart'.imp fun hab root => Value.modify_comm hab.2 hab.1 _ _ _
  exact (Settings.reordered_putAll hm (.refl root)).trans
    (Value.reordered_foldl_of_perm hperm hkeep hcomm root)

/-! ## Trees in an order -/

/-- A path with steps in it leads into a list or a table. -/
private theorem isNested_setPath (v : Value) {steps : List Selector} (hne : steps ≠ [])
    (root : Value) : (setPath v steps root).isNested = true := by
  cases steps with
  | nil => exact absurd rfl hne
  | cons step steps =>
    cases step with
    | item i => rfl
    | name key =>
      cases steps with
      | nil => cases v <;> rfl
      | cons next steps => rfl

/-- Items that are replaced by the same one stay the same. -/
private theorem forall₂_setItem {items items' : List Value} {v v' : Value}
    (h : List.Forall₂ SameItem items items') (hv : SameItem v v') (place : Nat) :
    List.Forall₂ SameItem (setItem place v items) (setItem place v' items') := by
  have hset {l l' : List Value} (h : List.Forall₂ SameItem l l') (place : Nat) :
      List.Forall₂ SameItem (l.set place v) (l'.set place v') := by
    induction h generalizing place with
    | nil => exact .nil
    | cons hitem hrest ih =>
      cases place with
      | zero => exact .cons hv hrest
      | succ place => exact .cons hitem (ih place)
  rw [setItem, setItem, h.length_eq]
  exact hset (List.rel_append h (List.forall₂_same.mpr fun v _ => .refl v)) place

/-- A key with an index sets the same, whatever is nested in the list. -/
private theorem alike_place {v v' : Value} (h : SameItem v v') (names : List String)
    (place : Int × List Selector) : Setting.Alike ⟨names, some place, v⟩ ⟨names, some place, v'⟩ where
  names := rfl
  change := by
    intro old old' hold
    obtain ⟨i, steps⟩ := place
    have hroot : Reordered (old.getD .null) (old'.getD .null) := by
      cases hold with
      | none => exact .refl _
      | some hold => exact hold
    have hitems := hroot.listItems
    refine .sequence ?_
    rw [hitems.length_eq]
    refine forall₂_setItem hitems ?_ _
    cases steps with
    | nil => exact h
    | cons step steps =>
      exact .nested (isNested_setPath v (List.cons_ne_nil _ _) _)
        (isNested_setPath v' (List.cons_ne_nil _ _) _)

variable (order : TableOrder)

/-- Items in order are made from items. -/
private theorem mem_items {way : List Value} {place : Nat} {items : List Value} {v' : Value}
    (h : v' ∈ order.items way place items) : ∃ v ∈ items, ∃ way', v' = order.tree way' v := by
  induction items generalizing place with
  | nil => cases h
  | cons v vs ih =>
    rcases List.mem_cons.mp h with rfl | h
    · exact ⟨v, List.mem_cons_self, _, rfl⟩
    · obtain ⟨u, hu, hsame⟩ := ih h
      exact ⟨u, List.mem_cons_of_mem v hu, hsame⟩

/-- The entries of a table are taken one by one. -/
private theorem table_eq_map (way : List Value) (entries : List (Value × Value)) :
    order.table way entries = entries.map fun e => (e.1, order.tree (e.1 :: way) e.2) := by
  induction entries with
  | nil => rfl
  | cons e rest ih =>
    rw [TableOrder.table, ih]
    rfl

/-- Entries in order are made from entries, with the same keys. -/
private theorem mem_entries {way : List Value} {entries : List (Value × Value)}
    {e' : Value × Value} (h : e' ∈ order.entries way (order.table way entries)) :
    ∃ e ∈ entries, e' = (e.1, order.tree (e.1 :: way) e.2) := by
  rw [(order.perm way _).mem_iff, table_eq_map, List.mem_map] at h
  obtain ⟨e, he, rfl⟩ := h
  exact ⟨e, he, rfl⟩

/-- Plain data with its tables in order is plain data. -/
theorem isSettings_tree {v : Value} (h : IsSettings v) (way : List Value) :
    IsSettings (order.tree way v) := by
  induction h generalizing way with
  | sequence _ ih =>
    refine .sequence fun v' hv' => ?_
    obtain ⟨v, hv, way', rfl⟩ := mem_items order hv'
    exact ih v hv way'
  | mapping hkeys _ ih =>
    refine .mapping (fun e' he' => ?_) fun e' he' => ?_
    · obtain ⟨e, he, rfl⟩ := mem_entries order he'
      exact hkeys e he
    · obtain ⟨e, he, rfl⟩ := mem_entries order he'
      exact ih e he _
  | null => exact .null
  | bool b => exact .bool b
  | int hlow hhigh => exact .int hlow hhigh
  | float x => exact .float x
  | string s => exact .string s

/-- An item with its tables in order is the same item. -/
theorem sameItem_tree (way : List Value) (v : Value) : SameItem v (order.tree way v) := by
  cases v with
  | sequence | mapping => exact .nested rfl rfl
  | _ => exact .refl _

/-- Items with their tables in order are the same items. -/
theorem forall₂_items (way : List Value) (place : Nat) (items : List Value) :
    List.Forall₂ SameItem items (order.items way place items) := by
  induction items generalizing place with
  | nil => exact .nil
  | cons v vs ih => exact .cons (sameItem_tree order _ v) (ih (place + 1))

/-- Entries in another order are a layer in another order. -/
theorem perm_documentLayer {entries entries' : List (Value × Value)}
    (h : entries.Perm entries') : (documentLayer entries).Perm (documentLayer entries') :=
  h.filterMap _

/-- The settings of entries are those of the rows they are taken for. -/
theorem settingsIn_eq_flatMap (names : List String) (entries : List (Value × Value)) :
    settingsIn names entries =
      (documentLayer entries).flatMap fun row =>
        settingsAt (names ++ [Text.toLower row.1]) row.2 := by
  induction entries with
  | nil => rfl
  | cons entry rest ih =>
    obtain ⟨key, v⟩ := entry
    cases key with
    | string key =>
      rw [settingsIn, ih]
      rfl
    | _ =>
      rw [settingsIn, ih]
      · rfl
      · simp

/-- The settings of entries in another order. -/
theorem perm_settingsIn (names : List String) {entries entries' : List (Value × Value)}
    (h : entries.Perm entries') :
    (settingsIn names entries).Perm (settingsIn names entries') := by
  rw [settingsIn_eq_flatMap, settingsIn_eq_flatMap]
  exact (perm_documentLayer h).flatMap_right _

/-- A value that is put as it is. -/
private theorem alike_leaf {v v' : Value} (h : Reordered v v') (names : List String)
    (hv : putOver v = fun _ => v) (hv' : putOver v' = fun _ => v') :
    Setting.Alike ⟨names, none, v⟩ ⟨names, none, v'⟩ where
  names := rfl
  change _ _ _ := by
    show Reordered (putOver v _) (putOver v' _)
    rw [hv, hv']
    exact h

/-- A table without entries leaves what is there. -/
private theorem alike_empty (names : List String) :
    Setting.Alike ⟨names, none, .mapping []⟩ ⟨names, none, .mapping []⟩ where
  names := rfl
  change := by
    intro old old' hold
    cases hold with
    | none => exact .refl _
    | some hold => exact hold

/-- The settings of a table with entries are those of its entries. -/
private theorem settingsAt_mapping (names : List String) {entries : List (Value × Value)}
    (hne : entries ≠ []) : settingsAt names (.mapping entries) = settingsIn names entries := by
  obtain ⟨entry, rest, rfl⟩ := List.exists_cons_of_ne_nil hne
  rw [settingsAt]

mutual

/-- A value has the same settings with its tables in order. -/
theorem sameSettings_tree : ∀ {v : Value}, IsSettings v → ∀ (way : List Value)
    (names : List String), SameSettings (settingsAt names v) (settingsAt names (order.tree way v))
  | .mapping [], _, way, names => by
    have htree : order.tree way (.mapping []) = .mapping [] :=
      congrArg Value.mapping (order.perm way []).eq_nil
    rw [htree]
    exact .of_alike (alike_empty names)
  | .mapping (entry :: rest), .mapping hkeys hvalues, way, names => by
    have hperm := order.perm way (order.table way (entry :: rest))
    have hne : order.entries way (order.table way (entry :: rest)) ≠ [] := by
      intro hnil
      rw [hnil] at hperm
      cases hperm.symm.eq_nil
    rw [settingsAt, TableOrder.tree, settingsAt_mapping names hne]
    exact (sameSettings_table hkeys hvalues way names).perm (perm_settingsIn names hperm.symm)
  | .sequence items, _, way, names =>
    .of_alike (alike_leaf (.sequence (forall₂_items order way 0 items)) names rfl rfl)
  | .null, _, _, names => .of_alike (alike_leaf (.refl _) names rfl rfl)
  | .bool _, _, _, names => .of_alike (alike_leaf (.refl _) names rfl rfl)
  | .int _, _, _, names => .of_alike (alike_leaf (.refl _) names rfl rfl)
  | .float _, _, _, names => .of_alike (alike_leaf (.refl _) names rfl rfl)
  | .string _, _, _, names => .of_alike (alike_leaf (.refl _) names rfl rfl)

/-- Entries have the same settings with the tables below them in order. -/
theorem sameSettings_table : ∀ {entries : List (Value × Value)},
    (∀ entry ∈ entries, ∃ name, entry.1 = .string name) →
    (∀ entry ∈ entries, IsSettings entry.2) → ∀ (way : List Value) (names : List String),
    SameSettings (settingsIn names entries) (settingsIn names (order.table way entries))
  | [], _, _, _, _ => ⟨[], .nil, .nil⟩
  | (key, v) :: rest, hkeys, hvalues, way, names => by
    rw [List.forall_mem_cons] at hkeys hvalues
    obtain ⟨⟨name, hname⟩, hkeys⟩ := hkeys
    obtain rfl : key = .string name := hname
    rw [TableOrder.table, settingsIn, settingsIn]
    exact (sameSettings_tree hvalues.1 _ _).append (sameSettings_table hkeys hvalues.2 way names)

end

/-- A key has the same settings with the tables of its value in order. -/
theorem sameSettings_key (key : String) {v : Value} (hv : IsSettings v) (way : List Value) :
    SameSettings (keySettings key v) (keySettings key (order.tree way v)) := by
  unfold keySettings
  split
  · exact sameSettings_tree order hv way _
  · exact .of_alike (alike_place (sameItem_tree order way v) _ _)

/-- A document has the same settings in any order. -/
theorem sameSettings_document {document : List (Value × Value)}
    (h : ∀ entry ∈ document, IsSettings entry.2) (way : List Value) :
    SameSettings (layerSettings (documentLayer document))
      (layerSettings (documentLayer (order.entries way (order.table way document)))) := by
  have htable : SameSettings (layerSettings (documentLayer document))
      (layerSettings (documentLayer (order.table way document))) := by
    induction document with
    | nil => exact ⟨[], .nil, .nil⟩
    | cons entry rest ih =>
      obtain ⟨key, v⟩ := entry
      rw [List.forall_mem_cons] at h
      cases key with
      | string key => exact (sameSettings_key order key h.1 _).append (ih h.2)
      | _ => exact ih h.2
  exact htable.perm ((perm_documentLayer (order.perm way _).symm).flatMap_right _)

/-! ## Documents in an order -/

/-- The entries of a document in order are plain data. -/
theorem isSettings_entries (order : Order) {document : List (Value × Value)}
    (h : ∀ entry ∈ document, IsSettings entry.2) :
    ∀ entry ∈ order.entries document, IsSettings entry.2 := by
  intro entry hentry
  obtain ⟨e, he, rfl⟩ := mem_entries order.document hentry
  exact isSettings_tree order.document (h e he) _

/-- A document with nothing over it is merged the same in any order, when no two of its keys
    are for one setting. -/
theorem reordered_layered_entries (order : Order) {document : List (Value × Value)}
    (h : ∀ entry ∈ document, IsSettings entry.2) (hapart : KeysApart document) :
    Reordered (layered document []) (layered (order.entries document) []) := by
  have hlayered {document : List (Value × Value)} (h : ∀ entry ∈ document, IsSettings entry.2) :
      layered document [] = putAll (.mapping []) (layerSettings (documentLayer document)) :=
    overlay_eq_putAll (isSettings_documentLayer h) isSettings_empty
  rw [hlayered h, hlayered (isSettings_entries order h)]
  exact (sameSettings_document order.document h []).reordered_putAll hapart _

/-- Two orders agree on a document when its tables are gone through alike, or when no two of
    its keys are for one setting. -/
def Order.AgreeOn (order order' : Order) (document : List (Value × Value)) : Prop :=
  order.entries document = order'.entries document ∨ KeysApart document

/-- Everything from the last to the first. -/
def Order.reversed : Order where
  document := ⟨fun _ table => table.reverse, fun _ table => table.reverse_perm⟩
  environment overrides := overrides.reverse
  environment_perm overrides := overrides.reverse_perm
  merged := ⟨fun _ table => table.reverse, fun _ table => table.reverse_perm⟩

/-- Orders that agree on a document merge it the same. -/
theorem Order.AgreeOn.reordered {order order' : Order} {document : List (Value × Value)}
    (h : order.AgreeOn order' document) (hdocument : ∀ entry ∈ document, IsSettings entry.2) :
    Reordered (layered (order.entries document) []) (layered (order'.entries document) []) := by
  rcases h with hsame | hapart
  · rw [hsame]
    exact .refl _
  · exact (reordered_layered_entries order hdocument hapart).symm.trans
      (reordered_layered_entries order' hdocument hapart)

/-! ## Handing on what is merged -/

/-- The rows of a record in order are its rows in some order, with the tables in them in
    order. -/
private theorem exists_tree_record (order : TableOrder) {rows : List (String × Value)}
    (h : IsSettings (.record rows)) (way : List Value) : ∃ rows' : List (String × Value),
      order.tree way (.record rows) = .record rows' ∧
        rows'.Perm (rows.map fun row => (row.1, order.tree (.string row.1 :: way) row.2)) := by
  obtain ⟨rows', hrecord⟩ := (isSettings_tree order h way).exists_record
  refine ⟨rows', hrecord, ?_⟩
  have hrows := congrArg Value.rows hrecord
  rw [Value.rows_record] at hrows
  rw [← hrows, ← Value.rows_record (rows.map _)]
  refine perm_documentLayer ((order.perm way _).trans (.of_eq ?_))
  rw [table_eq_map]
  simp only [Value.record, tableEntries, List.map_map, Function.comp_def]

/-- Data is the same but for the order of rows with its tables in order. -/
theorem reordered_tree (order : TableOrder) {v : Value} (h : IsDistinct v) (hv : IsSettings v)
    (way : List Value) : Reordered v (order.tree way v) := by
  induction h generalizing way with
  | @leaf v h =>
    cases v with
    | sequence items => exact .sequence (forall₂_items order way 0 items)
    | mapping entries => exact absurd rfl (h entries)
    | _ => exact .refl _
  | @record rows hdistinct _ ih =>
    obtain ⟨rows', htree, hperm⟩ := exists_tree_record order hv way
    have hnames := hperm.map Prod.fst
    rw [List.map_map] at hnames
    rw [htree]
    refine .record hnames.symm fun name v v' hlookup hlookup' => ?_
    have hmem := hperm.mem_iff.mp (Environment.mem_of_lookup_eq_some hlookup')
    obtain ⟨row, hrow, hsame⟩ := List.mem_map.mp hmem
    obtain ⟨rfl, rfl⟩ := Prod.mk.inj hsame
    rw [Environment.lookup_of_mem hdistinct hrow] at hlookup
    obtain rfl := Option.some.inj hlookup
    exact ih row hrow (isSettings_record_iff.mp hv row hrow) _

/-- The settings of a document with variables over it are handed on the same. -/
theorem reordered_layeredIn (order : Order) {document : List (Value × Value)}
    (h : ∀ entry ∈ document, IsSettings entry.2) (overrides : List (String × String)) :
    Reordered (layered (order.entries document) (order.environment overrides))
      (layeredIn order document overrides) := by
  have hentries := isSettings_entries order h
  have hlayer := isSettings_documentLayer hentries
  refine reordered_tree order.merged ?_ (isSettings_layered hentries _) []
  exact isDistinct_overlay (isSettings_environmentLayer _)
    (isSettings_overlay isSettings_empty hlayer)
    (isDistinct_overlay hlayer isSettings_empty isDistinct_empty)

/-! ## The order in which it is written -/

mutual

theorem tree_written : ∀ (v : Value) (way : List Value), TableOrder.written.tree way v = v
  | .sequence items, way => by rw [TableOrder.tree, items_written items way 0]
  | .mapping table, way => by
    rw [TableOrder.tree, table_written table way]
    rfl
  | .null, _ => rfl
  | .bool _, _ => rfl
  | .int _, _ => rfl
  | .float _, _ => rfl
  | .string _, _ => rfl
  | .tagged _ _, _ => rfl

theorem items_written : ∀ (items : List Value) (way : List Value) (place : Nat),
    TableOrder.written.items way place items = items
  | [], _, _ => rfl
  | v :: vs, way, place => by
    rw [TableOrder.items, tree_written v, items_written vs]

theorem table_written : ∀ (table : List (Value × Value)) (way : List Value),
    TableOrder.written.table way table = table
  | [], _ => rfl
  | (key, v) :: rest, way => by
    rw [TableOrder.table, tree_written v, table_written rest]

end

/-- A document in the order in which it is written is the document. -/
@[simp] theorem entries_written (document : List (Value × Value)) :
    Order.written.entries document = document :=
  table_written document []

/-- So are the variables. -/
@[simp] theorem environment_written (overrides : List (String × String)) :
    Order.written.environment overrides = overrides :=
  rfl

end RunPlan.Settings
