import RunPlan.Proofs.Tabular

/-!
# Settings with nothing over them

A document is put together again entry by entry when it becomes a layer of settings. What
comes out is the document itself where its mappings have names as keys, no name twice
(`Settings.IsTable`).

## Key results

- `Settings.isTable_treeOf`: the tree of a tabular node has such mappings
- `Settings.layered_eq_of_isTable`: the settings of a document with nothing over it
-/

namespace RunPlan.Settings

open Yaml
open Value (record)

/-- Data whose mappings have names as keys, no name twice. What is in sequences does not
    matter, as they are never merged. -/
inductive IsTable : Value → Prop where
  | leaf {v : Value} (h : ∀ entries, v ≠ .mapping entries) : IsTable v
  | record {rows : List (String × Value)} (hnames : ∀ row ∈ rows, IsSettingName row.1)
      (hdistinct : (rows.map Prod.fst).Nodup) (h : ∀ row ∈ rows, IsTable row.2) :
      IsTable (.record rows)

/-! ## Trees of documents -/

/-- Rows that go with the entries of a node: a name and the tree of its value for each. -/
abbrev Rows (entries : List (Node × Node)) (rows : List (String × Value)) : Prop :=
  List.Forall₂ (fun entry row => entry.1.Names row.1 ∧ treeOf entry.2 = some row.2) entries rows

/-- The tree of a mapping with names as keys has a row for each entry. -/
theorem treeEntries_eq_some_iff {entries : List (Node × Node)}
    (hkeys : ∀ entry ∈ entries, ∃ name, entry.1.IsKey name) {vs : List (Value × Value)} :
    treeEntries entries = some vs ↔ ∃ rows : List (String × Value),
      .mapping vs = record rows ∧ Rows entries rows := by
  induction entries generalizing vs with
  | nil =>
    constructor
    · intro h
      obtain rfl := Option.some.inj h
      exact ⟨[], rfl, .nil⟩
    · rintro ⟨rows, hvs, hrows⟩
      cases hrows
      obtain rfl := Value.mapping.inj hvs
      rfl
  | cons entry rest ih =>
    obtain ⟨key, n⟩ := entry
    rw [List.forall_mem_cons] at hkeys
    obtain ⟨⟨name, hname⟩, hkeys⟩ := hkeys
    rw [treeEntries, hname.keyText?_eq]
    constructor
    · intro h
      split at h
      · rename_i key' v vs' hkey hv hvs'
        obtain rfl := Option.some.inj hkey
        obtain rfl := Option.some.inj h
        obtain ⟨rows, hrows, hentries⟩ := (ih hkeys).mp hvs'
        obtain rfl := Value.mapping.inj hrows
        exact ⟨(name, v) :: rows, rfl, .cons ⟨hname.names, hv⟩ hentries⟩
      · cases h
    · rintro ⟨rows, hvs, hrows⟩
      cases hrows with
      | @cons _ row _ rows hrow hrows =>
        obtain rfl := hname.names.unique hrow.1
        obtain rfl := Value.mapping.inj hvs
        rw [hrow.2, (ih hkeys).mpr ⟨rows, rfl, hrows⟩]
        rfl

/-- The tree of a mapping with names as keys is a record of such rows. -/
theorem treeOf_eq_record_iff {tag : Option String} {entries : List (Node × Node)}
    (hkeys : ∀ entry ∈ entries, ∃ name, entry.1.IsKey name) {rows : List (String × Value)} :
    treeOf (.mapping tag entries) = some (record rows) ↔ Rows entries rows := by
  constructor
  · intro h
    obtain ⟨vs, hvs, hrecord⟩ := Option.map_eq_some_iff.mp h
    obtain ⟨rows', hrows, hentries⟩ := (treeEntries_eq_some_iff hkeys).mp hvs
    have hsame := congrArg Value.rows (hrows.symm.trans hrecord)
    rw [Value.rows_record, Value.rows_record] at hsame
    rw [← hsame]
    exact hentries
  · intro h
    exact Option.map_eq_some_iff.mpr ⟨_, (treeEntries_eq_some_iff hkeys).mpr ⟨rows, rfl, h⟩, rfl⟩

/-- Where the keys of entries are different names, so are the names of rows. -/
theorem Rows.nodup {entries : List (Node × Node)} {rows : List (String × Value)}
    (hdistinct : entries.Pairwise fun a b => ∀ name, a.1.Names name → ¬ b.1.Names name)
    (h : Rows entries rows) : (rows.map Prod.fst).Nodup := by
  induction h with
  | nil => exact List.nodup_nil
  | cons hfirst hrest ih =>
    rw [List.pairwise_cons] at hdistinct
    refine List.nodup_cons.mpr ⟨fun hmem => ?_, ih hdistinct.2⟩
    obtain ⟨row, hrow, hname⟩ := List.mem_map.mp hmem
    obtain ⟨entry, hentry, hnames, -⟩ := exists_mem_of_forall₂ hrest row hrow
    exact hdistinct.1 entry hentry _ hfirst.1 (hname ▸ hnames)

/-- A scalar without a tag is no mapping. -/
theorem ne_mapping_of_scalarValue {plain : Bool} {text : String} {v : Value}
    (h : scalarValue none plain text = some v) (entries : List (Value × Value)) :
    v ≠ .mapping entries := by
  rintro rfl
  cases plain with
  | false => cases h
  | true =>
    cases isPlainValue_of_plainValue h

/-- The tree of a tabular node has names as keys, no name twice. -/
theorem isTable_treeOf {n : Node} (hn : n.IsTabular) {v : Value} (h : treeOf n = some v) :
    IsTable v := by
  induction hn generalizing v with
  | scalar plain text => exact .leaf (ne_mapping_of_scalarValue h)
  | sequence _ _ =>
    obtain ⟨vs, -, rfl⟩ := Option.map_eq_some_iff.mp h
    exact .leaf nofun
  | reference _ ih => exact ih h
  | @mapping entries hkeys _ hdistinct ih =>
    obtain ⟨vs, hvs, rfl⟩ := Option.map_eq_some_iff.mp h
    obtain ⟨rows, hrows, hentries⟩ := (treeEntries_eq_some_iff hkeys).mp hvs
    rw [hrows]
    refine .record (fun row hrow => ?_) (hentries.nodup hdistinct)
      (fun row hrow => ?_)
    · obtain ⟨entry, hentry, hnames, -⟩ := exists_mem_of_forall₂ hentries row hrow
      obtain ⟨name, hname⟩ := hkeys entry hentry
      rw [hnames.unique hname.names]
      exact hname.word
    · obtain ⟨entry, hentry, -, htree⟩ := exists_mem_of_forall₂ hentries row hrow
      exact ih entry hentry htree

/-! ## Merging -/

/-- A new row goes last. -/
theorem setRow_of_notMem {name : String} {rows : List (String × Value)}
    (h : name ∉ rows.map Prod.fst) (v : Value) :
    Value.setRow name v rows = rows ++ [(name, v)] := by
  induction rows with
  | nil => rfl
  | cons row rest ih =>
    rw [List.map_cons, List.mem_cons, not_or] at h
    rw [Value.setRow, if_neg (Ne.symm h.1), ih h.2, List.cons_append]

/-- Rows are set one after the other. -/
private theorem setChildren_record {rows done : List (String × Value)}
    (h : ∀ row ∈ rows, ∀ done : List (String × Value), row.1 ∉ done.map Prod.fst →
      setChild row.1 (record done) row.2 = record (done ++ [row]))
    (hdistinct : ((done ++ rows).map Prod.fst).Nodup) :
    setChildren (record done) (rows.map fun row => (.string row.1, row.2)) =
      record (done ++ rows) := by
  induction rows generalizing done with
  | nil => rw [List.map_nil, setChildren, List.append_nil]
  | cons row rows ih =>
    rw [List.forall_mem_cons] at h
    have hnew : row.1 ∉ done.map Prod.fst := by
      rw [List.map_append, List.nodup_append] at hdistinct
      intro hmem
      exact hdistinct.2.2 row.1 hmem row.1 (by simp) rfl
    rw [List.append_cons] at hdistinct ⊢
    rw [List.map_cons, setChildren, h.1 done hnew, ih h.2 hdistinct]

/-- Data with names as keys is put under a new name as it is. -/
theorem setChild_of_isTable {v : Value} (hv : IsTable v) {name : String}
    (hname : Text.toLower name = name) {done : List (String × Value)}
    (hnew : name ∉ done.map Prod.fst) :
    setChild name (record done) v = record (done ++ [(name, v)]) := by
  induction hv generalizing name done with
  | leaf hleaf =>
    rw [setChild_eq hleaf, hname, record, tableEntries, Value.setEntry_record,
      setRow_of_notMem hnew, record]
  | @record rows hnames hdistinct _ ih =>
    have hrows : setChildren (record []) (rows.map fun row => (.string row.1, row.2)) =
        record rows :=
      @setChildren_record rows [] (fun row hrow done hnew =>
        ih row hrow (hnames row hrow).lower hnew) hdistinct
    have hfind : Value.find? (done.map fun row => (.string row.1, row.2)) name = none := by
      rw [Value.find?_record, Environment.lookup_eq_none hnew]
    have hstep : setChild name (record done) (record rows) =
        .mapping (Value.setEntry (Text.toLower name)
          (setChildren
            ((Value.find? (done.map fun row => (.string row.1, row.2))
              (Text.toLower name)).getD (record []))
            (rows.map fun row => (.string row.1, row.2)))
          (done.map fun row => (.string row.1, row.2))) := rfl
    rw [hstep, hname, hfind, Option.getD_none, hrows, Value.setEntry_record,
      setRow_of_notMem hnew]
    rfl

/-- A layer of names over others. -/
theorem overlay_record {rows done : List (String × Value)}
    (hnames : ∀ row ∈ rows, IsSettingName row.1) (h : ∀ row ∈ rows, IsTable row.2)
    (hdistinct : ((done ++ rows).map Prod.fst).Nodup) :
    overlay (record done) rows = record (done ++ rows) := by
  induction rows generalizing done with
  | nil => simp [overlay]
  | cons row rows ih =>
    rw [List.forall_mem_cons] at hnames h
    have hnew : row.1 ∉ done.map Prod.fst := by
      rw [List.map_append, List.nodup_append] at hdistinct
      intro hmem
      exact hdistinct.2.2 row.1 hmem row.1 (by simp) rfl
    have hset (root : Value) : overlay root (row :: rows) =
        overlay (setPath row.2 (keyPath (Text.toLower row.1)) root) rows := by
      rw [overlay, List.foldl_cons, ← overlay]
    rw [List.append_cons] at hdistinct ⊢
    rw [hset, hnames.1.lower, hnames.1.path, setPath, setChild_of_isTable h.1 hnames.1.lower hnew,
      ih hnames.2 h.2 hdistinct]

/-- Settings with names as keys are kept where nothing is put over them. -/
theorem layered_eq_of_isTable {entries : List (Value × Value)} (h : IsTable (.mapping entries)) :
    layered entries [] = .mapping entries := by
  generalize hv : Value.mapping entries = v at h
  cases h with
  | leaf hleaf => exact absurd hv.symm (hleaf entries)
  | @record rows hnames hdistinct h =>
    obtain rfl := Value.mapping.inj hv
    have hlayer : documentLayer (rows.map fun row => (.string row.1, row.2)) = rows :=
      Value.rows_record rows
    show overlay (record []) (documentLayer _) = _
    rw [hlayer]
    exact overlay_record hnames h hdistinct

end RunPlan.Settings
