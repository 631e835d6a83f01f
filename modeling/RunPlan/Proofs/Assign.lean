import RunPlan.Proofs.Environment
import RunPlan.Proofs.Settings

/-!
# Setting values at paths of names

A setting under a path such as `main.num_steps` is a row of a record in a record. `assign`
sets the value there and makes the records on the way. On plain data this is what putting
a layer over settings does.

## Key results

- `Value.lookup_setRow`, `Value.mem_map_fst_setRow_iff`: what setting a row does to a record
- `Value.modify_append`, `Value.modify_modify`: changes of what stands at a path
- `Settings.setPath_names`: settings are overridden by `assign`
-/

namespace RunPlan

namespace Value

open Environment (lookup_cons_eq)

/-! ## Rows of a record -/

/-- The rows of a record; anything else counts as an empty one. -/
def rows (v : Value) : List (String × Value) :=
  Settings.documentLayer (Settings.tableEntries v)

/-- The rows of a record are what it was made of. -/
@[simp] theorem rows_record (rows : List (String × Value)) : (record rows).rows = rows := by
  rw [Value.rows, record, Settings.tableEntries, Settings.documentLayer, List.filterMap_map]
  exact List.filterMap_some

/-- Sets the value of a row. A new row goes last. -/
def setRow (name : String) (v : Value) : List (String × Value) → List (String × Value)
  | [] => [(name, v)]
  | (other, old) :: rest =>
    if other = name then (name, v) :: rest else (other, old) :: setRow name v rest

/-- The value of a row after one has been set. -/
theorem lookup_setRow (name other : String) (v : Value) (rows : List (String × Value)) :
    (setRow name v rows).lookup other = if other = name then some v else rows.lookup other := by
  induction rows with
  | nil => rw [setRow, lookup_cons_eq]
  | cons row rest ih =>
    obtain ⟨first, old⟩ := row
    rw [setRow]
    by_cases hfirst : first = name
    · rw [if_pos hfirst, lookup_cons_eq, lookup_cons_eq, hfirst]
      by_cases h : other = name
      · rw [if_pos h, if_pos h]
      · rw [if_neg h, if_neg h, if_neg h]
    · rw [if_neg hfirst, lookup_cons_eq, lookup_cons_eq, ih]
      by_cases h : other = first
      · rw [if_pos h, if_pos h, if_neg (h ▸ hfirst)]
      · rw [if_neg h, if_neg h]

/-- Setting a row that is there keeps the names. -/
theorem map_fst_setRow_of_mem {name : String} {rows : List (String × Value)}
    (h : name ∈ rows.map Prod.fst) (v : Value) :
    (setRow name v rows).map Prod.fst = rows.map Prod.fst := by
  induction rows with
  | nil => simp at h
  | cons row rest ih =>
    obtain ⟨first, old⟩ := row
    rw [setRow]
    split
    · simp [*]
    · rename_i hfirst
      have hrest : name ∈ rest.map Prod.fst := by simpa [Ne.symm hfirst] using h
      rw [List.map_cons, List.map_cons, ih hrest]

/-- Setting a new row adds its name at the end. -/
theorem map_fst_setRow_of_notMem {name : String} {rows : List (String × Value)}
    (h : name ∉ rows.map Prod.fst) (v : Value) :
    (setRow name v rows).map Prod.fst = rows.map Prod.fst ++ [name] := by
  induction rows with
  | nil => rfl
  | cons row rest ih =>
    obtain ⟨first, old⟩ := row
    rw [List.map_cons, List.mem_cons, not_or] at h
    rw [setRow, if_neg (Ne.symm h.1), List.map_cons, ih h.2]
    rfl

/-- The names of a record after a row has been set. -/
theorem mem_map_fst_setRow_iff {name other : String} {v : Value} {rows : List (String × Value)} :
    other ∈ (setRow name v rows).map Prod.fst ↔ other = name ∨ other ∈ rows.map Prod.fst := by
  by_cases h : name ∈ rows.map Prod.fst
  · rw [map_fst_setRow_of_mem h]
    exact ⟨Or.inr, fun hother => hother.elim (fun heq => heq ▸ h) id⟩
  · rw [map_fst_setRow_of_notMem h, List.mem_append, List.mem_singleton, or_comm]

/-- The rows after one has been set are that one and others that were there. -/
theorem mem_setRow {name : String} {v : Value} {rows : List (String × Value)}
    {row : String × Value} (h : row ∈ setRow name v rows) : row = (name, v) ∨ row ∈ rows := by
  induction rows with
  | nil => exact .inl (List.mem_singleton.mp h)
  | cons first rest ih =>
    rw [setRow] at h
    split at h
    · exact (List.mem_cons.mp h).imp_right (List.mem_cons_of_mem _)
    · rcases List.mem_cons.mp h with rfl | h
      · exact .inr List.mem_cons_self
      · exact (ih h).imp_right (List.mem_cons_of_mem _)

/-- Setting a row leaves no name twice. -/
theorem nodup_map_fst_setRow {rows : List (String × Value)} (h : (rows.map Prod.fst).Nodup)
    (name : String) (v : Value) : ((setRow name v rows).map Prod.fst).Nodup := by
  by_cases hname : name ∈ rows.map Prod.fst
  · rwa [map_fst_setRow_of_mem hname]
  · rw [map_fst_setRow_of_notMem hname]
    exact List.nodup_append.mpr ⟨h, by simp, by
      rintro other hother _ hnew rfl
      exact hname (List.mem_singleton.mp hnew ▸ hother)⟩

/-! ## Paths of names -/

/-- Sets the value at a path of names. Whatever is not a record on the way becomes one. -/
def assign (v : Value) : List String → Value → Value
  | [], _ => v
  | name :: names, root =>
    record (setRow name (assign v names ((root.rows.lookup name).getD null)) root.rows)

/-- A null on the way is as good as an empty record. -/
theorem assign_null (v : Value) {names : List String} (h : names ≠ []) :
    assign v names null = assign v names (record []) := by
  cases names with
  | nil => exact absurd rfl h
  | cons name names => rfl

/-- What holds something is not null. -/
theorem assign_ne_null {v : Value} (h : v ≠ null) (names : List String) (root : Value) :
    assign v names root ≠ null := by
  cases names with
  | nil => exact h
  | cons name names => exact nofun

/-! ## Changes at paths of names -/

/-- Setting a row twice is setting it the second time. -/
theorem setRow_setRow_self (name : String) (v v' : Value) (rows : List (String × Value)) :
    setRow name v (setRow name v' rows) = setRow name v rows := by
  induction rows with
  | nil => simp [setRow]
  | cons row rest ih =>
    obtain ⟨first, old⟩ := row
    by_cases hfirst : first = name
    · simp [setRow, hfirst]
    · simp [setRow, hfirst, ih]

/-- Changes what stands at a path of names, if anything. Whatever is not a record on the way
    becomes one. -/
def modify (f : Option Value → Value) : List String → Option Value → Value
  | [], old => f old
  | name :: names, old =>
    let rows := (old.getD null).rows
    record (setRow name (modify f names (rows.lookup name)) rows)

/-- A null on the way is as good as nothing. -/
theorem modify_getD_null {f : Option Value → Value} {names : List String}
    (h : names = [] → f (some null) = f none) (old : Option Value) :
    modify f names (some (old.getD null)) = modify f names old := by
  cases old with
  | some v => rfl
  | none =>
    cases names with
    | nil => exact h rfl
    | cons name names => rfl

/-- Setting a value does not look at what was there. -/
theorem assign_eq_modify (v : Value) (names : List String) (root : Value) :
    assign v names root = modify (fun _ => v) names (some root) := by
  induction names generalizing root with
  | nil => rfl
  | cons name names ih => rw [assign, ih, modify_getD_null fun _ => rfl, modify, Option.getD_some]

/-- A change below a path is a change at the path. -/
theorem modify_append (f : Option Value → Value) (names names' : List String)
    (old : Option Value) :
    modify f (names ++ names') old = modify (modify f names') names old := by
  induction names generalizing old with
  | nil => rfl
  | cons name names ih => rw [List.cons_append, modify, modify, ih]

/-- Two changes at a path are one after the other. -/
theorem modify_modify (f g : Option Value → Value) (names : List String) (old : Option Value) :
    modify f names (some (modify g names old)) = modify (fun old => f (some (g old))) names old := by
  induction names generalizing old with
  | nil => rfl
  | cons name names ih =>
    simp only [modify, Option.getD_some, rows_record, lookup_setRow, if_true, setRow_setRow_self, ih]

/-! ## Records as mappings -/

/-- A field of a record. -/
theorem find?_record (name : String) (rows : List (String × Value)) :
    find? (rows.map fun row => (string row.1, row.2)) name = rows.lookup name := by
  induction rows with
  | nil => rfl
  | cons row rows ih =>
    obtain ⟨other, v⟩ := row
    by_cases hname : other = name
    · subst hname
      simp [find?, isText]
    · have hother : isText name (string other) = false := beq_false_of_ne hname
      rw [List.lookup_cons, beq_false_of_ne (Ne.symm hname), ← ih, List.map_cons, find?,
        List.find?_cons_of_neg (by simp [hother])]
      rfl

/-- Setting an entry of a record. -/
theorem setEntry_record (name : String) (v : Value) (rows : List (String × Value)) :
    setEntry name v (rows.map fun row => (string row.1, row.2)) =
      (setRow name v rows).map fun row => (string row.1, row.2) := by
  induction rows with
  | nil => rfl
  | cons row rows ih =>
    obtain ⟨other, old⟩ := row
    have htext : isText name (string other) = (other == name) := rfl
    rw [List.map_cons, setEntry, setRow, htext]
    by_cases hname : other = name
    · simp [hname]
    · simp [hname, ih]

end Value

namespace Settings

open Value (assign record)

/-- The entries of plain data are its rows. -/
theorem tableEntries_eq {v : Value} (h : IsSettings v) :
    tableEntries v = v.rows.map fun row => (.string row.1, row.2) := by
  cases h with
  | mapping hkeys h =>
    obtain ⟨rows, hrows⟩ := (IsSettings.mapping hkeys h).exists_record
    rw [hrows, Value.rows_record]
    rfl
  | _ => rfl

/-- The rows of plain data are plain data. -/
theorem isSettings_of_mem_rows {root : Value} (h : IsSettings root) {row : String × Value}
    (hrow : row ∈ root.rows) : IsSettings row.2 := by
  cases h with
  | mapping hkeys hvalues =>
    have hrecord := IsSettings.mapping hkeys hvalues
    obtain ⟨rows, hroot⟩ := hrecord.exists_record
    rw [hroot, Value.rows_record] at hrow
    rw [hroot, isSettings_record_iff] at hrecord
    exact hrecord row hrow
  | _ => cases hrow

/-- What stands under a name of plain data is plain data. -/
theorem isSettings_lookup {root : Value} (h : IsSettings root) {name : String} {v : Value}
    (hlookup : root.rows.lookup name = some v) : IsSettings v :=
  isSettings_of_mem_rows h (Environment.mem_of_lookup_eq_some hlookup)

/-- Setting an entry to other than a table replaces it. -/
theorem setChild_eq {v : Value} (hv : ∀ entries, v ≠ .mapping entries) (name : String)
    (table : Value) : setChild name table v =
      .mapping (Value.setEntry (Text.toLower name) v (tableEntries table)) := by
  cases v with
  | mapping entries => exact absurd rfl (hv entries)
  | _ => rfl

/-- Settings are overridden by `assign`, when the names of the path are in lower case. -/
theorem setPath_names {v : Value} (hv : ∀ entries, v ≠ .mapping entries) {names : List String}
    (hne : names ≠ []) (hlower : ∀ name ∈ names, Text.toLower name = name) {root : Value}
    (h : IsSettings root) : setPath v (names.map .name) root = assign v names root := by
  -- only the last name of a path is put into lower case when it is set, the ones before are
  -- taken as they are
  induction names generalizing root with
  | nil => exact absurd rfl hne
  | cons name names ih =>
    rw [List.forall_mem_cons] at hlower
    cases names with
    | nil =>
      rw [List.map_singleton, setPath, setChild_eq hv, hlower.1, tableEntries_eq h,
        Value.setEntry_record, assign, assign, record]
    | cons next names =>
      have hold : IsSettings ((root.rows.lookup name).getD .null) := by
        cases hlookup : root.rows.lookup name with
        | none => exact .null
        | some old => exact isSettings_lookup h hlookup
      have hrest := ih (List.cons_ne_nil _ _) hlower.2 hold
      rw [List.map_cons] at hrest
      rw [List.map_cons, List.map_cons, setPath]
      · simp only [tableEntries_eq h, Value.find?_record, Value.setEntry_record, hrest]
        rfl
      · exact List.cons_ne_nil _ _

end Settings

end RunPlan
