import RunPlan.Proofs.Layered
import RunPlan.Proofs.NullDocuments
import RunPlan.Proofs.SectionWording

/-!
# Where both loaders agree

A document that strict reading accepts is loaded as the same workflow, with nothing over it,
exactly when it is worded as `Wording.workflow` says. This holds for ordinary texts without
tags; of other texts there is only that their settings must show the workflow.

## Key results

- `Workflow.exists_shownBy_iff`: the settings of a document show the workflow when it is worded so
- `Workflow.loadLayered_agrees_iff`: layered loading agrees with strict reading on such documents
-/

namespace RunPlan

open Yaml

/-- What is null among settings is null for strict reading, too. -/
theorem eq_null_of_treeOf {n : Node} {u : Value} (hn : n.IsUntagged)
    (h : Settings.treeOf n = some .null) (hu : n.toValue = some u) : u = .null := by
  have habsent := isAbsent_of_treeOf hn h
  have hvalue := toValue_target hu
  have huntagged := hn.target
  generalize n.target = target at habsent hvalue huntagged
  cases huntagged with
  | scalar plain s =>
    cases plain with
    | false => cases habsent
    | true =>
      have hnull : Yaml.plainValue s = some .null := by
        rw [plainValue_eq_null_iff]
        simpa [isAbsent, tagKind] using habsent
      obtain ⟨x, hx, rfl⟩ := Option.map_eq_some_iff.mp hvalue
      exact (Option.some.inj (hnull.symm.trans hx)).symm
  | sequence => cases habsent
  | mapping => cases habsent
  | reference => cases habsent

/-- No required field of a document that strict reading accepts is null among settings. -/
theorem lookup_ne_null_of_checkRequired {entries : List (Node × Node)} {v : Value}
    {rows : List (String × Value)} (hn : (Node.mapping none entries).IsTabular)
    (hvalues : ∀ entry ∈ entries, entry.2.IsUntagged)
    (hvalue : (Node.mapping none entries).toValue = some v) (hcheck : checkRequired v = .ok ())
    (hrows : Settings.Rows entries rows) :
    ∀ name ∈ requiredFields, rows.lookup name ≠ some .null := by
  intro name hname hnull
  obtain ⟨vs, hvs, rfl⟩ := Option.map_eq_some_iff.mp hvalue
  obtain ⟨entry, hentry, hkey, htree⟩ :=
    exists_mem_of_forall₂ hrows _ (Environment.mem_of_lookup_eq_some hnull)
  obtain ⟨e, he, htext, hne⟩ :=
    exists_entry_of_isMissing (checkRequired_mapping_iff.mp hcheck name hname)
  obtain ⟨node, hnode, hnodeKey, hnodeValue⟩ := exists_node_of_entryValues hvs e he
  have hnodeName : node.1.Names name := by
    rw [show e.1 = .string name from eq_string_of_isText htext] at hnodeKey
    exact names_of_toValue hnodeKey
  -- no two keys are the same name
  have hsame : entry = node := by
    cases hn with
    | mapping _ _ hdistinct =>
      by_contra hother
      have hsymm : Std.Symm fun a b : Node × Node => ∀ name, a.1.Names name → ¬ b.1.Names name :=
        ⟨fun a b hab name hb ha => hab name ha hb⟩
      exact hdistinct.forall hentry hnode hother name hkey hnodeName
  subst hsame
  rw [eq_null_of_treeOf (hvalues entry hentry) htree hnodeValue] at hne
  cases hne

/-- Where settings are a record, there is a mapping behind aliases. -/
theorem exists_entries_of_treeOf {n : Node} {rows : List (String × Value)} (hn : n.IsUntagged)
    (h : Settings.treeOf n = some (.record rows)) :
    ∃ entries, n.target = .mapping none entries ∧ ∀ entry ∈ entries, entry.2.IsUntagged := by
  have huntagged := hn.target
  have hcomplete := hn.target_ne_reference
  rw [← hn.treeOf_target] at h
  generalize n.target = target at h huntagged hcomplete
  cases huntagged with
  | scalar plain s => exact absurd rfl (Settings.ne_mapping_of_scalarValue h _)
  | sequence =>
    obtain ⟨_, -, hvalue⟩ := Option.map_eq_some_iff.mp h
    cases hvalue
  | @mapping entries _ hvalues => exact ⟨entries, rfl, hvalues⟩
  | reference => exact absurd rfl (hcomplete _)

/-- A text that strict reading accepts has a document, as nothing at all lacks every field. -/
theorem readDocument_of_readNode {text : String} {n : Node} {v : Value}
    (hread : readNode text = .ok (n, v)) (hcheck : checkRequired v = .ok ()) :
    readDocument strictDialect text = .ok (some n) := by
  have hvalue := Workflow.toValue_of_readNode hread
  obtain ⟨document, hdocument, hbounds⟩ := bind_eq_ok_iff.mp hread
  have hn : document.getD .empty = n := by
    dsimp only at hbounds
    split at hbounds
    · cases hbounds
    · obtain ⟨u, -, hpair⟩ := bind_eq_ok_iff.mp hbounds
      exact congrArg Prod.fst (Except.ok.inj hpair)
  rw [hdocument, ← hn]
  cases document with
  | some m => rfl
  | none =>
    rw [← hn] at hvalue
    obtain rfl : Value.null = v := Option.some.inj hvalue
    cases hcheck

namespace Workflow

/-- The settings of a document that strict reading accepts show the workflow exactly when the
    document is worded so. -/
theorem exists_shownBy_iff {n : Node} {v : Value} {w : Workflow} (hn : n.IsUntagged)
    (hvalue : n.toValue = some v) (hcheck : checkRequired v = .ok ())
    (hdecode : Workflow.decode n = .ok w) :
    (∃ u, Settings.treeOf n = some u ∧ w.ShownBy u) ↔ Wording.workflow n := by
  rw [← workflowShape_decode] at hdecode
  rw [← readsAlike_workflow.shows_iff hn hdecode]
  constructor
  · rintro ⟨u, hu, rows, rfl, -, hrows⟩
    exact ⟨_, hu, rows, rfl, hrows⟩
  · rintro ⟨u, hu, rows, rfl, hrows⟩
    obtain ⟨entries, htarget, hvalues⟩ := exists_entries_of_treeOf hn hu
    have htabular := (readsAlike_workflow.isTabular hn hdecode).target
    have hvalue' := toValue_target hvalue
    have htree := hn.treeOf_target.trans hu
    rw [htarget] at htabular hvalue' htree
    have hkeys : ∀ entry ∈ entries, ∃ name, entry.1.IsKey name := by
      cases htabular with
      | mapping hkeys => exact hkeys
    exact ⟨_, hu, rows, rfl, lookup_ne_null_of_checkRequired htabular hvalues hvalue' hcheck
      ((Settings.treeOf_eq_record_iff hkeys).mp htree), hrows⟩

/-- A file that strict reading accepts is loaded as the same workflow, with nothing over it,
    exactly when its settings show that workflow. A document without tags must be worded so. -/
theorem loadLayered_agrees_iff {fs : FileSystem} {current : Location} {p : Path}
    {text : String} {w : Workflow} (hfile : fs.readText current p = .ok text)
    (h : ofText text = .ok w) :
    (loadLayered fs current p [] = .ok w ↔ ∃ entries, Settings.ofText? text = some entries ∧
      w.ShownBy (Settings.layered entries [])) ∧
    ∃ n v, readNode text = .ok (n, v) ∧ (IsOrdinary text → n.IsUntagged →
      (loadLayered fs current p [] = .ok w ↔ Wording.workflow n)) := by
  have hload := loadLayered_eq_ok_iff hfile h
  refine ⟨hload, ?_⟩
  obtain ⟨n, v, hread⟩ : ∃ n v, readNode text = .ok (n, v) := by
    cases hread : readNode text with
    | error e =>
      rw [ofText, hread] at h
      cases h
    | ok document => exact ⟨document.1, document.2, rfl⟩
  obtain ⟨hcheck, hdecode, -⟩ := (ofText_eq_ok_iff hread).mp h
  have hvalue := toValue_of_readNode hread
  refine ⟨n, v, hread, fun htext hn => ?_⟩
  rw [hload, ← exists_shownBy_iff hn hvalue hcheck hdecode]
  have hdocument := readDocument_of_readNode hread hcheck
  have htabular := readsAlike_workflow.isTabular hn hdecode
  have hsettings {entries : List (Value × Value)} :
      Settings.ofText? text = some entries ↔ Settings.treeOf n = some (.mapping entries) :=
    Settings.ofText?_eq htext hdocument htabular
  constructor
  · rintro ⟨entries, hentries, hshown⟩
    have htree := hsettings.mp hentries
    rw [Settings.layered_eq_of_isTable (Settings.isTable_treeOf htabular htree)] at hshown
    exact ⟨_, htree, hshown⟩
  · rintro ⟨u, htree, rows, rfl, hrows⟩
    have htable := Settings.isTable_treeOf htabular htree
    refine ⟨_, hsettings.mpr htree, ?_⟩
    rw [Settings.layered_eq_of_isTable htable]
    exact ⟨rows, rfl, hrows⟩

/-- A document with a section that has a number in it. -/
theorem loadLayered_agrees_iff_num_steps :
    let document : Value := .record [
      ("job", .string "j"), ("scenario_path", .string "s"), ("log_path", .string "l"),
      ("main", .record [("num_steps", .int 3)])]
    let text := render document
    let fs : FileSystem := ⟨[(["w.yml"], .text text)]⟩
    let w : Workflow := { minimal "j" ⟨"s"⟩ ⟨"l"⟩ with main.numSteps := some 3 }
    fs.readText [] ⟨"w.yml"⟩ = .ok text ∧ ofText text = .ok w ∧
      readNode text = .ok (writtenNode document, document) ∧ IsOrdinary text ∧
      (writtenNode document).IsUntagged ∧ loadLayered fs [] ⟨"w.yml"⟩ [] = .ok w ∧
      Wording.workflow (writtenNode document) := by
  intro document text fs w
  have hfile : fs.readText [] ⟨"w.yml"⟩ = .ok text := by rfl
  have hstrict : ofText text = .ok w := eq_ok_of_toOption (by decide +kernel)
  have hlayered : loadLayered fs [] ⟨"w.yml"⟩ [] = .ok w := eq_ok_of_toOption (by decide +kernel)
  have hmain : IsWritten 1 (.record [("num_steps", .int 3)]) :=
    .record (isFieldName_of_all (by decide)) (by decide)
      (by simpa using .scalar (.ofNat (show 3 < 2 ^ 64 by decide)))
  have hdocument : IsWritten 2 document :=
    .record (isFieldName_of_all (by decide)) (by decide)
      (by simpa using ⟨.scalar (.string _), .scalar (.string _), .scalar (.string _), hmain⟩)
  have hread : readNode text = .ok (writtenNode document, document) :=
    readNode_render (List.cons_ne_nil _ _) hdocument (by decide)
  have hfirst : text.toList.head? = some 'j' := by decide +kernel
  have hlast : text.toList.getLast? = some '\n' := by decide +kernel
  have hlines : text.toList.all (!isNextLine ·) = true := by decide +kernel
  have htext : IsOrdinary text := ⟨by simp [hfirst], by simpa using hlines, by simp [hlast]⟩
  have hsteps : (writtenNode (.record [("num_steps", .int 3)])).IsUntagged :=
    .mapping (List.forall_mem_singleton.mpr (.scalar _ _))
      (List.forall_mem_singleton.mpr (.scalar _ _))
  have huntagged : (writtenNode document).IsUntagged := by
    refine .mapping ?_ ?_
    · simpa [writtenEntries] using ⟨.scalar _ _, .scalar _ _, .scalar _ _, .scalar _ _⟩
    · simpa [writtenEntries] using ⟨.scalar _ _, .scalar _ _, .scalar _ _, hsteps⟩
  obtain ⟨n, v, hsame, hagrees⟩ := (loadLayered_agrees_iff hfile hstrict).2
  obtain ⟨rfl, rfl⟩ := Prod.mk.inj (Except.ok.inj (hsame.symm.trans hread))
  exact ⟨hfile, hstrict, hread, htext, huntagged, hlayered, (hagrees htext huntagged).mp hlayered⟩

/-- A section with nothing under it is left out by strict reading, but not by layered
    loading. -/
theorem loadLayered_ne_ok_empty_section :
    let text := "job: test\nscenario_path: scenarios/cim\nlog_path: log/test.txt\nmain:\n"
    let fs : FileSystem := ⟨[(["w.yml"], .text text)]⟩
    let w := minimal "test" ⟨"scenarios/cim"⟩ ⟨"log/test.txt"⟩
    fs.readText [] ⟨"w.yml"⟩ = .ok text ∧ ofText text = .ok w ∧
      loadLayered fs [] ⟨"w.yml"⟩ [] ≠ .ok w := by
  intro text fs w
  refine ⟨by rfl, eq_ok_of_toOption (by decide +kernel), ?_⟩
  intro hload
  have hnone : (loadLayered fs [] ⟨"w.yml"⟩ []).toOption = none := by decide +kernel
  rw [hload] at hnone
  cases hnone

end Workflow

end RunPlan
