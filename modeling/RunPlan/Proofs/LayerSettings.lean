import RunPlan.Proofs.Assign

/-!
# The settings of a layer

A layer is taken apart into single settings (`layerSettings`): each has a path of names, and
putting it over a tree is a change at that path. A table with entries has the settings of its
entries; any other value is a setting by itself.

## Key results

- `overlay_eq_putAll`: putting a layer over a tree is putting its settings there one by one
- `isDistinct_overlay`: this brings in no name twice
-/

namespace RunPlan.Settings

open Value (modify)

/-! ## The settings of a layer -/

/-- A setting of a layer: the names of its path, where the path goes on from there in a list,
    and the value. -/
structure Setting where
  names : List String
  place : Option (Int × List Selector)
  value : Value

/-- The names of a path up to its first index, and the rest. The last name of a path is put
    into lower case. -/
def splitPath : List Selector → List String × Option (Int × List Selector)
  | [] => ([], none)
  | [.name key] => ([Text.toLower key], none)
  | .name key :: steps => (key :: (splitPath steps).1, (splitPath steps).2)
  | .item i :: steps => ([], some (i, steps))

mutual

/-- The settings of a value at a path: those of its entries when it has some. -/
def settingsAt (names : List String) : Value → List Setting
  | .mapping (entry :: rest) => settingsIn names (entry :: rest)
  | v => [⟨names, none, v⟩]

/-- The settings of entries below a path. -/
def settingsIn (names : List String) : List (Value × Value) → List Setting
  | [] => []
  | (.string key, v) :: rest =>
    settingsAt (names ++ [Text.toLower key]) v ++ settingsIn names rest
  | _ :: rest => settingsIn names rest

end

/-- The settings of a key. One with an index sets a part of a list. -/
def keySettings (key : String) (v : Value) : List Setting :=
  match splitPath (keyPath (Text.toLower key)) with
  | (names, none) => settingsAt names v
  | (names, some place) => [⟨names, some place, v⟩]

/-- The settings of a layer. -/
def layerSettings (layer : List (String × Value)) : List Setting :=
  layer.flatMap fun (key, v) => keySettings key v

/-! ## Settings as changes -/

/-- What stands at a path after a value has been put there. A table is merged with what was
    there; anything else replaces it. -/
def putOver (v : Value) (old : Option Value) : Value :=
  match v with
  | .mapping incoming => setChildren (old.getD (.mapping [])) incoming
  | v => v

/-- What stands at the names of a setting after it has been put there. -/
def Setting.change (s : Setting) (old : Option Value) : Value :=
  match s.place with
  | none => putOver s.value old
  | some (i, steps) => setPath s.value (.item i :: steps) (old.getD .null)

/-- Puts settings into a tree one after the other. -/
def putAll (root : Value) (settings : List Setting) : Value :=
  settings.foldl (fun root s => modify s.change s.names (some root)) root

theorem putAll_append (root : Value) (l l' : List Setting) :
    putAll root (l ++ l') = putAll (putAll root l) l' :=
  List.foldl_append

/-! ## Plain data at paths -/

/-- What there is, if anything, is plain data. -/
def IsSettingsIn (old : Option Value) : Prop :=
  ∀ v, old = some v → IsSettings v

theorem isSettingsIn_some {v : Value} (h : IsSettings v) : IsSettingsIn (some v) := by
  rintro _ ⟨⟩
  exact h

/-- The default for what is not there is plain data, too. -/
theorem IsSettingsIn.getD {old : Option Value} (h : IsSettingsIn old) {v : Value}
    (hv : IsSettings v) : IsSettings (old.getD v) := by
  cases old with
  | none => exact hv
  | some v => exact h v rfl

/-- A change to plain data keeps it plain. -/
theorem isSettings_modify {f : Option Value → Value}
    (hf : ∀ old, IsSettingsIn old → IsSettings (f old)) (names : List String)
    {old : Option Value} (h : IsSettingsIn old) : IsSettings (modify f names old) := by
  induction names generalizing old with
  | nil => exact hf old h
  | cons name names ih =>
    have hroot := h.getD .null
    rw [Value.modify, isSettings_record_iff]
    intro row hrow
    rcases Value.mem_setRow hrow with rfl | hrow
    · exact ih fun v hv => isSettings_lookup hroot hv
    · exact isSettings_of_mem_rows hroot hrow

/-- Changes that agree on plain data are the same change of it. -/
theorem modify_congr {f f' : Option Value → Value}
    (hf : ∀ old, IsSettingsIn old → f old = f' old) (names : List String) {old : Option Value}
    (h : IsSettingsIn old) : modify f names old = modify f' names old := by
  induction names generalizing old with
  | nil => exact hf old h
  | cons name names ih =>
    have hroot := h.getD .null
    rw [Value.modify, Value.modify, ih fun v hv => isSettings_lookup hroot hv]

/-! ## Putting a layer over a tree -/

/-- Setting an entry of a table is a change of it. -/
theorem setChild_eq_modify (name : String) {table : Value} (h : IsSettings table) (v : Value) :
    setChild name table v = modify (putOver v) [Text.toLower name] (some table) := by
  have hrows := tableEntries_eq h
  cases v with
  | mapping incoming =>
    have hset : setChild name table (.mapping incoming) =
        .mapping (Value.setEntry (Text.toLower name) (putOver (.mapping incoming)
          (Value.find? (tableEntries table) (Text.toLower name))) (tableEntries table)) := rfl
    rw [hset, hrows, Value.find?_record, Value.setEntry_record]
    rfl
  | _ =>
    rw [setChild_eq (by simp), hrows, Value.setEntry_record]
    rfl

/-- Setting the value at a path is a change at its names. -/
theorem setPath_eq_modify {path : List Selector} (hne : path ≠ []) {root : Value}
    (h : IsSettings root) (v : Value) :
    setPath v path root = modify (Setting.change ⟨(splitPath path).1, (splitPath path).2, v⟩)
      (splitPath path).1 (some root) := by
  induction path generalizing root with
  | nil => exact absurd rfl hne
  | cons step steps ih =>
    cases step with
    | item i => rfl
    | name key =>
      cases steps with
      | nil => exact setChild_eq_modify key h v
      | cons next steps =>
        have hold : IsSettings ((root.rows.lookup key).getD .null) :=
          IsSettingsIn.getD (fun v hv => isSettings_lookup h hv) .null
        have hrest := ih (List.cons_ne_nil _ _) hold
        -- where the path goes on in a list, a null there is as good as nothing
        rw [Value.modify_getD_null] at hrest
        · rw [setPath]
          · simp only [tableEntries_eq h, Value.find?_record, Value.setEntry_record, hrest]
            rfl
          · exact List.cons_ne_nil _ _
        · intro hnames
          cases next with
          | item i => rfl
          | name key' => cases steps <;> cases hnames

/-- Setting an entry of the table at a path is a change below the path. -/
private theorem modify_setChild {g : Option Value → Value}
    (hg : ∀ old, IsSettingsIn old → IsSettings (g old)) (name : String) (v : Value)
    (names : List String) {root : Value} (h : IsSettings root) :
    modify (fun old => setChild name (g old) v) names (some root) =
      modify (putOver v) (names ++ [Text.toLower name]) (some (modify g names (some root))) := by
  rw [Value.modify_append, Value.modify_modify]
  exact modify_congr (fun old hold => setChild_eq_modify name (hg old hold) v) names
    (isSettingsIn_some h)

mutual

/-- Putting a value at a path is putting its settings there. -/
theorem modify_putOver : ∀ {v : Value}, IsSettings v → ∀ (names : List String) {root : Value},
    IsSettings root → modify (putOver v) names (some root) = putAll root (settingsAt names v)
  | .mapping [], _, _, _, _ => rfl
  | .mapping ((key, v) :: rest), .mapping hkeys hvalues, names, root, h => by
    rw [List.forall_mem_cons] at hkeys hvalues
    obtain ⟨⟨name, hname⟩, hkeys⟩ := hkeys
    obtain rfl : key = .string name := hname
    have hg : ∀ old, IsSettingsIn old → IsSettings (old.getD (.mapping [])) :=
      fun old hold => hold.getD isSettings_empty
    have hset : ∀ old, IsSettingsIn old → IsSettings (setChild name (old.getD (.mapping [])) v) :=
      fun old hold => isSettings_setChild name (hg old hold) hvalues.1
    have hfirst : modify (fun old => setChild name (old.getD (.mapping [])) v) names (some root) =
        modify (putOver v) (names ++ [Text.toLower name]) (some root) := by
      rw [Value.modify_append]
      refine modify_congr (fun old hold => ?_) names (isSettingsIn_some h)
      rw [setChild_eq_modify name (hg old hold)]
      cases old <;> rfl
    have hrest := modify_setChildren hkeys hvalues.2 names h hset
    rw [hfirst, modify_putOver hvalues.1 _ h] at hrest
    rw [settingsAt, settingsIn, putAll_append, ← hrest]
    rfl
  | .null, _, _, _, _ => rfl
  | .bool _, _, _, _, _ => rfl
  | .int _, _, _, _, _ => rfl
  | .float _, _, _, _, _ => rfl
  | .string _, _, _, _, _ => rfl
  | .sequence _, _, _, _, _ => rfl

/-- Putting entries over the table at a path is putting their settings there. -/
theorem modify_setChildren : ∀ {entries : List (Value × Value)},
    (∀ entry ∈ entries, ∃ name, entry.1 = .string name) →
    (∀ entry ∈ entries, IsSettings entry.2) → ∀ (names : List String) {root : Value},
    IsSettings root → ∀ {g : Option Value → Value},
    (∀ old, IsSettingsIn old → IsSettings (g old)) →
    modify (fun old => setChildren (g old) entries) names (some root) =
      putAll (modify g names (some root)) (settingsIn names entries)
  | [], _, _, _, _, _, _, _ => rfl
  | (key, v) :: rest, hkeys, hvalues, names, root, h, g, hg => by
    rw [List.forall_mem_cons] at hkeys hvalues
    obtain ⟨⟨name, hname⟩, hkeys⟩ := hkeys
    obtain rfl : key = .string name := hname
    have hset : ∀ old, IsSettingsIn old → IsSettings (setChild name (g old) v) :=
      fun old hold => isSettings_setChild name (hg old hold) hvalues.1
    have hroot := isSettings_modify hg names (isSettingsIn_some h)
    have hrest := modify_setChildren hkeys hvalues.2 names h hset
    rw [modify_setChild hg name v names h, modify_putOver hvalues.1 _ hroot] at hrest
    rw [settingsIn, putAll_append, ← hrest]
    rfl

end

/-- Setting the value of a key is putting its settings there. -/
theorem setPath_keyPath (key : String) {v : Value} (hv : IsSettings v) {root : Value}
    (h : IsSettings root) :
    setPath v (keyPath (Text.toLower key)) root = putAll root (keySettings key v) := by
  have hne : keyPath (Text.toLower key) ≠ [] := by
    rw [keyPath]
    dsimp only
    split
    · exact List.cons_ne_nil _ _
    · split <;> exact List.cons_ne_nil _ _
  rw [setPath_eq_modify hne h, keySettings]
  generalize splitPath (keyPath (Text.toLower key)) = split
  obtain ⟨names, place⟩ := split
  cases place with
  | none => exact modify_putOver hv names h
  | some place => rfl

/-- Putting a layer over a tree is putting its settings there one by one. -/
theorem overlay_eq_putAll {layer : List (String × Value)}
    (hlayer : ∀ setting ∈ layer, IsSettings setting.2) {root : Value} (h : IsSettings root) :
    overlay root layer = putAll root (layerSettings layer) := by
  induction layer generalizing root with
  | nil => rfl
  | cons setting layer ih =>
    obtain ⟨key, v⟩ := setting
    rw [List.forall_mem_cons] at hlayer
    have hset := setPath_keyPath key hlayer.1 h
    have hroot := isSettings_setPath hlayer.1 (keyPath (Text.toLower key)) h
    have hrest := ih hlayer.2 hroot
    rw [hset] at hrest
    rw [layerSettings, List.flatMap_cons, putAll_append, ← layerSettings, ← hrest, ← hset]
    rfl

/-! ## Names that are there once -/

/-- Data whose records have no name twice. What is in lists does not matter. -/
inductive IsDistinct : Value → Prop where
  | leaf {v : Value} (h : ∀ entries, v ≠ .mapping entries) : IsDistinct v
  | record {rows : List (String × Value)} (hdistinct : (rows.map Prod.fst).Nodup)
      (h : ∀ row ∈ rows, IsDistinct row.2) : IsDistinct (.record rows)

theorem isDistinct_empty : IsDistinct (.mapping []) :=
  @IsDistinct.record [] List.nodup_nil (List.forall_mem_nil _)

/-- The rows of such data. -/
theorem IsDistinct.rows {root : Value} (h : IsDistinct root) :
    (root.rows.map Prod.fst).Nodup ∧ ∀ row ∈ root.rows, IsDistinct row.2 := by
  cases h with
  | leaf h =>
    have hrows : root.rows = [] := by
      cases root with
      | mapping entries => exact absurd rfl (h entries)
      | _ => rfl
    rw [hrows]
    exact ⟨List.nodup_nil, List.forall_mem_nil _⟩
  | record hdistinct h =>
    rw [Value.rows_record]
    exact ⟨hdistinct, h⟩

/-- A change at a path brings in no name twice. -/
theorem isDistinct_modify {f : Option Value → Value}
    (hf : ∀ old, (∀ v, old = some v → IsDistinct v) → IsDistinct (f old)) (names : List String)
    {old : Option Value} (h : ∀ v, old = some v → IsDistinct v) :
    IsDistinct (modify f names old) := by
  induction names generalizing old with
  | nil => exact hf old h
  | cons name names ih =>
    have hroot : IsDistinct (old.getD .null) := by
      cases old with
      | none => exact .leaf nofun
      | some v => exact h v rfl
    obtain ⟨hnames, hrows⟩ := hroot.rows
    rw [Value.modify]
    refine .record (Value.nodup_map_fst_setRow hnames name _) fun row hrow => ?_
    rcases Value.mem_setRow hrow with rfl | hrow
    · exact ih fun v hv => hrows _ (Environment.mem_of_lookup_eq_some hv)
    · exact hrows row hrow

/-- A setting whose value has no settings of its own. -/
def Setting.IsSingle (s : Setting) : Prop :=
  s.place = none → ∀ entry rest, s.value ≠ .mapping (entry :: rest)

mutual

theorem isSingle_settingsAt : ∀ (v : Value) (names : List String),
    ∀ s ∈ settingsAt names v, s.IsSingle
  | .mapping (entry :: rest), names => by
    rw [settingsAt]
    exact isSingle_settingsIn (entry :: rest) names
  | .mapping [], _ => List.forall_mem_singleton.mpr fun _ _ _ => nofun
  | .sequence _, _ => List.forall_mem_singleton.mpr fun _ _ _ => nofun
  | .null, _ => List.forall_mem_singleton.mpr fun _ _ _ => nofun
  | .bool _, _ => List.forall_mem_singleton.mpr fun _ _ _ => nofun
  | .int _, _ => List.forall_mem_singleton.mpr fun _ _ _ => nofun
  | .float _, _ => List.forall_mem_singleton.mpr fun _ _ _ => nofun
  | .string _, _ => List.forall_mem_singleton.mpr fun _ _ _ => nofun
  | .tagged _ _, _ => List.forall_mem_singleton.mpr fun _ _ _ => nofun

theorem isSingle_settingsIn : ∀ (entries : List (Value × Value)) (names : List String),
    ∀ s ∈ settingsIn names entries, s.IsSingle
  | [], _ => List.forall_mem_nil _
  | (key, v) :: rest, names => by
    intro s hs
    cases key with
    | string key =>
      rw [settingsIn, List.mem_append] at hs
      exact hs.elim (isSingle_settingsAt v _ s) (isSingle_settingsIn rest names s)
    | _ => exact isSingle_settingsIn rest names s hs

end

/-- The settings of a layer have no settings of their own. -/
theorem isSingle_layerSettings {layer : List (String × Value)} :
    ∀ s ∈ layerSettings layer, s.IsSingle := by
  intro s hs
  obtain ⟨⟨key, v⟩, -, hkey⟩ := List.mem_flatMap.mp hs
  simp only [keySettings] at hkey
  split at hkey
  · exact isSingle_settingsAt v _ s hkey
  · obtain rfl := List.mem_singleton.mp hkey
    exact nofun

/-- Such a setting brings in no name twice. -/
theorem Setting.IsSingle.isDistinct_change {s : Setting} (h : s.IsSingle) (old : Option Value)
    (hold : ∀ v, old = some v → IsDistinct v) : IsDistinct (s.change old) := by
  obtain ⟨names, place, v⟩ := s
  cases place with
  | some place => exact .leaf nofun
  | none =>
    cases v with
    | mapping entries =>
      cases entries with
      | cons entry rest => exact absurd rfl (h rfl entry rest)
      | nil =>
        cases old with
        | none => exact isDistinct_empty
        | some v => exact hold v rfl
    | _ => exact .leaf nofun

/-- Settings that are put into data bring in no name twice. -/
theorem isDistinct_putAll {l : List Setting} (hl : ∀ s ∈ l, s.IsSingle) {root : Value}
    (h : IsDistinct root) : IsDistinct (putAll root l) := by
  induction l generalizing root with
  | nil => exact h
  | cons s l ih =>
    rw [List.forall_mem_cons] at hl
    refine ih hl.2 (isDistinct_modify hl.1.isDistinct_change s.names ?_)
    rintro _ ⟨⟩
    exact h

/-- A layer that is put over data brings in no name twice. -/
theorem isDistinct_overlay {layer : List (String × Value)}
    (hlayer : ∀ setting ∈ layer, IsSettings setting.2) {root : Value} (hroot : IsSettings root)
    (h : IsDistinct root) : IsDistinct (overlay root layer) := by
  rw [overlay_eq_putAll hlayer hroot]
  exact isDistinct_putAll isSingle_layerSettings h

end RunPlan.Settings
