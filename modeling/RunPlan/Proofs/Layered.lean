import RunPlan.Proofs.Load
import RunPlan.Proofs.MergeOrder
import RunPlan.Workflow.Layered

/-!
# When layered loading agrees with strict reading

Layered loading takes a document apart into settings, merges them, and decodes the outcome
from its canonical rendering. What strict reading makes of the text is found again exactly
when the merged settings show it. A section with nothing under it becomes a null, which
shows no section, and a number becomes its canonical spelling, which may be another text.

## Key results

- `Workflow.loadLayered_eq_ok_iff`: layered loading agrees with strict reading when the
  settings show the workflow
-/

namespace RunPlan.Workflow

/-- The entries of a document of settings are plain data. -/
theorem isSettings_ofText? {text : String} {entries : List (Value × Value)}
    (h : Settings.ofText? text = some entries) :
    ∀ entry ∈ entries, Settings.IsSettings entry.2 := by
  unfold Settings.ofText? at h
  split at h
  · cases h
  · obtain rfl := Option.some.inj h
    exact List.forall_mem_nil _
  · split at h
    · rename_i htree
      obtain rfl := Option.some.inj h
      cases Settings.isSettings_treeOf htree with
      | mapping _ hvalues => exact hvalues
    · cases h

/-- Layers are read as a workflow when the merged settings show it. In which order these are
    handed on does not matter. -/
theorem ofLayersIn_eq_ok_iff {order : Settings.Order} {text : String}
    {overrides : List (String × String)} {w : Workflow} :
    ofLayersIn order text overrides = .ok w ↔ ∃ entries, Settings.ofText? text = some entries ∧
      w.ShownBy (Settings.layered (order.entries entries) (order.environment overrides)) := by
  unfold ofLayersIn
  cases hentries : Settings.ofText? text with
  | none => simp
  | some entries =>
    have hplain := isSettings_ofText? hentries
    have hsame := Settings.reordered_layeredIn order hplain overrides
    have hsettings : Settings.IsSettings (Settings.layeredIn order entries overrides) :=
      Settings.isSettings_tree order.merged
        (Settings.isSettings_layered (Settings.isSettings_entries order hplain) _) []
    have hshown : w.ShownBy (Settings.layeredIn order entries overrides) ↔
        w.ShownBy (Settings.layered (order.entries entries) (order.environment overrides)) :=
      ⟨fun h => h.of_reordered hsame.symm, fun h => h.of_reordered hsame⟩
    simp [ofValue_eq_ok_iff hsettings.isUntagged, hshown]

/-- The document of settings that a file holds, if there is one. -/
def documentOf? (fs : FileSystem) (current : Location) (p : Path) :
    Option (List (Value × Value)) :=
  (fs.readText current p).toOption.bind Settings.ofText?

/-- Its entries are plain data. -/
theorem isSettings_documentOf? {fs : FileSystem} {current : Location} {p : Path}
    {document : List (Value × Value)} (h : documentOf? fs current p = some document) :
    ∀ entry ∈ document, Settings.IsSettings entry.2 := by
  obtain ⟨text, -, htext⟩ := Option.bind_eq_some_iff.mp h
  exact isSettings_ofText? htext

/-- Orders agree on a document with no two keys for one setting. -/
theorem agreeOn_of_all {order order' : Settings.Order}
    {document? : Option (List (Value × Value))}
    (h : document?.all (fun document => decide (Settings.KeysApart document)) = true) :
    ∀ document ∈ document?, order.AgreeOn order' document := by
  rintro document rfl
  exact .inr (of_decide_eq_true h)

/-- A file with variables over it is read as a workflow, in an order, when the merged settings
    show it. -/
theorem readLayeredIn_eq_ok_iff {order : Settings.Order} {fs : FileSystem} {current : Location}
    {p : Path} {overrides : List (String × String)} {w : Workflow} :
    readLayeredIn order fs current p overrides = .ok w ↔ ∃ document,
      documentOf? fs current p = some document ∧
        w.ShownBy (Settings.layered (order.entries document) (order.environment overrides)) := by
  unfold readLayeredIn readFile documentOf?
  cases hfile : fs.readText current p with
  | error fault => simp [bind, Except.bind, Except.toOption]
  | ok text =>
    change ofLayersIn order text overrides = .ok w ↔ _
    simp [ofLayersIn_eq_ok_iff, Except.toOption]

-- of two keys for one setting the later one counts, so that the order of the document decides
example :
    let fs : FileSystem := ⟨[(["w.yml"], .text "job: a\nJOB: b\nscenario_path: s\nlog_path: l\n")]⟩
    let job (order : Settings.Order) :=
      (readLayeredIn order fs [] ⟨"w.yml"⟩ []).toOption.map (·.job)
    job .written = some "b" ∧ job .reversed = some "a" := by
  decide +kernel

/-- A file that strict reading accepts is loaded as the same workflow, with nothing over
    it, exactly when its settings show that workflow. -/
theorem loadLayered_eq_ok_iff {fs : FileSystem} {current : Location} {p : Path}
    {text : String} {w : Workflow} (hfile : fs.readText current p = .ok text)
    (h : ofText text = .ok w) :
    loadLayered fs current p [] = .ok w ↔ ∃ entries, Settings.ofText? text = some entries ∧
      w.ShownBy (Settings.layered entries []) := by
  have hlayers : loadLayered fs current p [] = .ok w ↔ ofLayersIn .written text [] = .ok w := by
    rw [loadLayered, readLayered, readLayeredIn, readFile, hfile]
    change (ofLayersIn .written text [] >>= fun w => w.validate >>= fun _ => pure w) = .ok w ↔ _
    cases hread : ofLayersIn .written text [] with
    | error e => simp [bind, Except.bind]
    | ok w' =>
      constructor
      · intro hload
        cases hvalid : w'.validate with
        | error e => simp [hvalid, bind, Except.bind] at hload
        | ok => simpa [hvalid, bind, Except.bind, pure, Except.pure] using hload
      · intro hsame
        obtain rfl : w' = w := Except.ok.inj hsame
        have hvalid := validate_eq_ok_iff.mpr (problems_of_ofText h)
        simp [hvalid, bind, Except.bind, pure, Except.pure]
  rw [hlayers, ofLayersIn_eq_ok_iff]
  simp

end RunPlan.Workflow
