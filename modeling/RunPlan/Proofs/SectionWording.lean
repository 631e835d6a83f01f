import RunPlan.Proofs.Wording

/-!
# The wording of sections

The settings of a section show what strict reading finds in it exactly when the section has
something under it, and each of its entries is worded as its name asks for. From this follows
the wording of a whole document.

## Key results

- `Shape.ReadsAlike.ofParts`: a section is shown by its settings when its parts are
- `readsAlike_workflow`: the wording of a whole document
-/

namespace RunPlan

open Yaml

/-! ## Sections -/

section

variable {α : Type} {parts : List (Part α)} {names : List String} {b : α} {path : NodePath}
  {n : Node} {entries : List (Node × Node)}

/-- A part goes with a wording of the same name. -/
abbrev Part.Worded (p : Part α) (wording : String × (Node → Prop)) : Prop :=
  p.name = wording.1 ∧ p.shape.ReadsAlike wording.2

/-- The rows of entries that have been decoded show the parts exactly when the settings of each
    entry show its part. -/
private theorem showsParts_iff (hparts : IsPartition parts) {required : List String} {start : α}
    (h : decodeEntries (parts.map Part.field) path [] start entries = .ok (names, b))
    (hrequired : required ⊆ names) :
    (∃ rows, Settings.Rows entries rows ∧ ShowsParts parts required start rows b) ↔
      ∀ entry ∈ entries, ∀ p ∈ parts, entry.1.Names p.name →
        ∃ v, Settings.treeOf entry.2 = some v ∧ p.shape.shows v (p.get b) := by
  have hpart := exists_part_of_decodeEntries hparts h
  have hdistinct := pairwise_of_decodeEntries hparts h
  have hentry := exists_entry_of_mem_names hparts h
  constructor
  · rintro ⟨rows, hrows, hshows⟩ entry hmem p hp hname
    obtain ⟨row, hrow, hrowName, htree⟩ := exists_mem_of_forall₂ hrows.flip entry hmem
    have hlookup := Environment.lookup_of_mem hshows.names.distinct hrow
    have hshown := hshows.shown p hp
    rw [Part.Shown, hname.unique hrowName, hlookup] at hshown
    exact ⟨row.2, htree, hshown⟩
  · intro hall
    obtain ⟨rows, hrows⟩ : ∃ rows, Settings.Rows entries rows := by
      apply exists_forall₂
      intro entry hmem
      obtain ⟨p, hp, hname, -⟩ := hpart entry hmem
      obtain ⟨v, hv, -⟩ := hall entry hmem p hp hname
      exact ⟨(p.name, v), hname, hv⟩
    have hrowOf {name : String} (hname : name ∈ names) : name ∈ rows.map Prod.fst := by
      obtain hseen | ⟨entry, hmem, hkey⟩ := hentry name hname
      · cases hseen
      · obtain ⟨row, hrow, hrowName, -⟩ := exists_mem_of_forall₂ hrows.flip entry hmem
        exact List.mem_map.mpr ⟨row, hrow, hrowName.unique hkey⟩
    refine ⟨rows, hrows, ⟨Settings.Rows.nodup hdistinct hrows, ?_, ?_⟩, ?_, ?_⟩
    · exact fun row _ => List.not_mem_nil
    · intro row hrow
      obtain ⟨entry, hmem, hrowName, -⟩ := exists_mem_of_forall₂ hrows row hrow
      obtain ⟨p, hp, hname, -⟩ := hpart entry hmem
      exact List.mem_map.mpr ⟨p, hp, hname.unique hrowName⟩
    · exact fun name hname => hrowOf (hrequired hname)
    · intro p hp
      unfold Part.Shown
      split
      · rename_i v hv
        obtain ⟨entry, hmem, hname, htree⟩ :=
          exists_mem_of_forall₂ hrows _ (Environment.mem_of_lookup_eq_some hv)
        obtain ⟨v', hv', hshows⟩ := hall entry hmem p hp hname
        obtain rfl : v = v' := Option.some.inj (htree.symm.trans hv')
        exact hshows
      · rename_i hnone
        apply get_eq_of_decodeEntries hparts hp h
        exact fun hname => Environment.lookup_eq_none_iff.mp hnone (hrowOf hname)

/-- A section is decoded from the entries of a mapping, or from nothing. -/
private theorem entries_of_decodeSection {title : String} {fields : List (Field α)}
    {required : List String} {start : α} (hn : n.IsUntagged)
    (h : decodeSection title fields required start path n = .ok b) :
    n.target = .scalar none true "" ∨
      ∃ entries names, n.target = .mapping none entries ∧
        (∀ entry ∈ entries, entry.1.IsUntagged) ∧ (∀ entry ∈ entries, entry.2.IsUntagged) ∧
        decodeEntries fields path [] start entries = .ok (names, b) ∧ required ⊆ names := by
  have huntagged := hn.target
  unfold decodeSection at h
  split at h
  · rename_i tag entries htarget
    rw [htarget] at huntagged ⊢
    cases huntagged with
    | mapping hkeys hvalues =>
      obtain ⟨_, hentries, hsection⟩ := bind_eq_ok_iff.mp h
      obtain rfl := Except.ok.inj hentries
      obtain ⟨⟨names, a⟩, hread, hmissing⟩ := bind_eq_ok_iff.mp hsection
      dsimp only at hmissing
      split at hmissing
      · cases hmissing
      · rename_i hnone
        obtain rfl := Except.ok.inj hmissing
        refine .inr ⟨entries, names, rfl, hkeys, hvalues, hread, fun name hname => ?_⟩
        simpa using List.find?_eq_none.mp hnone name hname
  · rename_i tag plain s htarget
    rw [htarget] at huntagged ⊢
    cases huntagged
    split at h
    · rename_i hblank
      rw [Bool.and_eq_true, beq_iff_eq] at hblank
      rw [hblank.1, hblank.2]
      exact .inl rfl
    · cases h
  · cases h

/-- The keys of entries that are decoded are the names of parts. -/
private theorem isKey_of_decodeEntries (hparts : IsPartition parts)
    (hnames : (parts.map (·.name)).all isSettingName = true) {seen : List String} {a : α}
    (hkeys : ∀ entry ∈ entries, entry.1.IsUntagged)
    (h : decodeEntries (parts.map Part.field) path seen a entries = .ok (names, b)) :
    ∀ entry ∈ entries, ∃ name, entry.1.IsKey name := by
  intro entry hentry
  obtain ⟨p, hp, hname, -⟩ := exists_part_of_decodeEntries hparts h entry hentry
  have hword := List.all_eq_true.mp hnames p.name (List.mem_map_of_mem hp)
  exact ⟨p.name, hkeys entry hentry, hname, isSettingName_spec hword⟩

/-- The settings of an entry show the part that its key names exactly when the entry has the
    wording of that name. -/
private theorem entry_iff (hparts : IsPartition parts)
    {wordings : List (String × (Node → Prop))} (hworded : List.Forall₂ Part.Worded parts wordings)
    {seen : List String} {a : α} (hvalues : ∀ entry ∈ entries, entry.2.IsUntagged)
    (h : decodeEntries (parts.map Part.field) path seen a entries = .ok (names, b))
    {entry : Node × Node} (hentry : entry ∈ entries) :
    (∀ p ∈ parts, entry.1.Names p.name →
      ∃ v, Settings.treeOf entry.2 = some v ∧ p.shape.shows v (p.get b)) ↔
    ∀ wording ∈ wordings, entry.1.Names wording.1 → wording.2 entry.2 := by
  constructor
  · intro hshows wording hwording hname
    obtain ⟨p, hp, hsame, hreads⟩ := exists_mem_of_forall₂ hworded wording hwording
    rw [← hsame] at hname
    have hread := decode_of_decodeEntries hparts h hentry hp hname
    exact (hreads.shows_iff (hvalues entry hentry) hread).mp (hshows p hp hname)
  · intro hall p hp hname
    obtain ⟨wording, hwording, hsame, hreads⟩ :=
      exists_mem_of_forall₂ hworded.flip p hp
    have hread := decode_of_decodeEntries hparts h hentry hp hname
    rw [hsame] at hname
    exact (hreads.shows_iff (hvalues entry hentry) hread).mpr (hall wording hwording hname)

/-- A section is shown by its settings when its entries are worded so, each by its name. -/
theorem Shape.ReadsAlike.ofParts {title : String} {required : List String} {start : α}
    (hparts : IsPartition parts) {wordings : List (String × (Node → Prop))}
    (hworded : List.Forall₂ Part.Worded parts wordings)
    (hnames : (parts.map (·.name)).all isSettingName = true) :
    (Shape.ofParts title required start hparts).ReadsAlike (Wording.fields wordings) where
  isTabular {path n b} hn h := by
    apply Node.IsTabular.of_target hn
    rcases entries_of_decodeSection hn h with
      htarget | ⟨entries, names, htarget, hkeys, hvalues, hread, -⟩
    · rw [htarget]
      exact .scalar true ""
    · rw [htarget]
      refine .mapping (isKey_of_decodeEntries hparts hnames hkeys hread) (fun entry hentry => ?_)
        (pairwise_of_decodeEntries hparts hread)
      obtain ⟨p, hp, -, hvalue⟩ := exists_part_of_decodeEntries hparts hread entry hentry
      obtain ⟨wording, -, -, hreads⟩ := exists_mem_of_forall₂ hworded.flip p hp
      exact hreads.isTabular (hvalues entry hentry) hvalue
  shows_iff {path n b} hn h := by
    rw [← hn.treeOf_target]
    unfold Wording.fields
    rcases entries_of_decodeSection hn h with
      htarget | ⟨entries, names, htarget, hkeys, hvalues, hread, hrequired⟩
    · -- settings have null for a section with nothing under it
      rw [htarget]
      constructor
      · rintro ⟨v, hv, rows, rfl, -⟩
        cases hv
      · rintro ⟨tag, entries, hentries, -⟩
        cases hentries
    · have htree {rows : List (String × Value)} :
          Settings.treeOf (.mapping none entries) = some (.record rows) ↔
            Settings.Rows entries rows :=
        Settings.treeOf_eq_record_iff (isKey_of_decodeEntries hparts hnames hkeys hread)
      have hentries {entry : Node × Node} (hentry : entry ∈ entries) :=
        entry_iff hparts hworded hvalues hread hentry
      have hshows := showsParts_iff hparts hread hrequired
      rw [htarget]
      constructor
      · rintro ⟨v, hv, rows, rfl, hrows⟩
        refine ⟨none, entries, rfl, fun entry hentry => (hentries hentry).mp ?_⟩
        exact hshows.mp ⟨rows, htree.mp hv, hrows⟩ entry hentry
      · rintro ⟨tag, entries', hsame, hall⟩
        obtain rfl := (Node.mapping.inj hsame).2
        obtain ⟨rows, htrees, hrows⟩ := hshows.mpr fun entry hentry =>
          (hentries hentry).mpr (hall entry hentry)
        exact ⟨.record rows, htree.mpr htrees, rows, rfl, hrows⟩

end

/-! ## The sections of a workflow -/

theorem readsAlike_logging : loggingShape.ReadsAlike Wording.logging :=
  .ofParts _ (.cons ⟨rfl, readsAlike_level⟩ <| .cons ⟨rfl, readsAlike_level⟩ .nil)
    (by decide +kernel)

theorem readsAlike_main : mainShape.ReadsAlike Wording.main :=
  .ofParts _
    (.cons ⟨rfl, readsAlike_count.optional⟩ <| .cons ⟨rfl, readsAlike_count.optional⟩ <|
      .cons ⟨rfl, readsAlike_schedule.optional⟩ <| .cons ⟨rfl, readsAlike_logging⟩ .nil)
    (by decide +kernel)

theorem readsAlike_controller : controllerShape.ReadsAlike Wording.controller :=
  .ofParts _ (.cons ⟨rfl, readsAlike_text⟩ <| .cons ⟨rfl, readsAlike_port⟩ .nil)
    (by decide +kernel)

theorem readsAlike_parallelism : parallelismShape.ReadsAlike Wording.parallelism :=
  .ofParts _
    (.cons ⟨rfl, readsAlike_count⟩ <| .cons ⟨rfl, readsAlike_count.optional⟩ <|
      .cons ⟨rfl, readsAlike_count.optional⟩ <| .cons ⟨rfl, readsAlike_number.optional⟩ <|
      .cons ⟨rfl, readsAlike_controller.optional⟩ .nil)
    (by decide +kernel)

theorem readsAlike_rollout : rolloutShape.ReadsAlike Wording.rollout :=
  .ofParts _ (.cons ⟨rfl, readsAlike_parallelism.optional⟩ <| .cons ⟨rfl, readsAlike_logging⟩ .nil)
    (by decide +kernel)

theorem readsAlike_checkpointing : checkpointingShape.ReadsAlike Wording.checkpointing :=
  .ofParts _ (.cons ⟨rfl, readsAlike_path⟩ <| .cons ⟨rfl, readsAlike_count⟩ .nil)
    (by decide +kernel)

theorem readsAlike_proxy : proxyShape.ReadsAlike Wording.proxy :=
  .ofParts _
    (.cons ⟨rfl, readsAlike_text⟩ <| .cons ⟨rfl, readsAlike_port⟩ <|
      .cons ⟨rfl, readsAlike_port⟩ .nil)
    (by decide +kernel)

theorem readsAlike_training : trainingShape.ReadsAlike Wording.training :=
  .ofParts _
    (.cons ⟨rfl, readsAlike_mode⟩ <| .cons ⟨rfl, readsAlike_path.optional⟩ <|
      .cons ⟨rfl, readsAlike_count.optional⟩ <| .cons ⟨rfl, readsAlike_checkpointing.optional⟩ <|
      .cons ⟨rfl, readsAlike_proxy.optional⟩ <| .cons ⟨rfl, readsAlike_count.optional⟩ <|
      .cons ⟨rfl, readsAlike_logging⟩ .nil)
    (by decide +kernel)

theorem readsAlike_workflow : workflowShape.ReadsAlike Wording.workflow :=
  .ofParts _
    (.cons ⟨rfl, readsAlike_text⟩ <| .cons ⟨rfl, readsAlike_path⟩ <|
      .cons ⟨rfl, readsAlike_path⟩ <| .cons ⟨rfl, readsAlike_main⟩ <|
      .cons ⟨rfl, readsAlike_rollout⟩ <| .cons ⟨rfl, readsAlike_training⟩ .nil)
    (by decide +kernel)

end RunPlan
