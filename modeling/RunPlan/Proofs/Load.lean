import RunPlan.Proofs.Result
import RunPlan.Workflow.Load

/-!
# What is accepted

Data is accepted in two steps and a text in four: each step that passes is one condition, and a
workflow that is loaded has met all of them.

## Key results

- `Workflow.ofValue_eq_ok_iff_decode`: which data is accepted
- `Workflow.ofText_eq_ok_iff`: which texts are accepted
-/

namespace RunPlan

open Yaml

/-! ## Tags on tags -/

/-- In items without tags on tags there are none in each of them. -/
theorem Value.itemsNestTags_eq_false_iff {items : List Value} :
    itemsNestTags items = false ↔ ∀ v ∈ items, v.hasNestedTag = false := by
  induction items with
  | nil => simp [itemsNestTags]
  | cons v vs ih => rw [itemsNestTags, Bool.or_eq_false_iff, ih, List.forall_mem_cons]

/-- In entries without tags on tags there are none in each key and each value. -/
theorem Value.entriesNestTags_eq_false_iff {entries : List (Value × Value)} :
    entriesNestTags entries = false ↔
      ∀ entry ∈ entries, entry.1.hasNestedTag = false ∧ entry.2.hasNestedTag = false := by
  induction entries with
  | nil => simp [entriesNestTags]
  | cons entry entries ih =>
    rw [entriesNestTags, Bool.or_eq_false_iff, Bool.or_eq_false_iff, ih, List.forall_mem_cons]

/-! ## Conditions -/

/-- The schema errors of a document are errors of loading. -/
theorem decodeDocument_eq_ok_iff {n : Node} {w : Workflow} :
    decodeDocument n = .ok w ↔ Workflow.decode n = .ok w := by
  unfold decodeDocument
  cases Workflow.decode n with
  | error e => simp
  | ok w => simp

namespace Workflow

/-- A workflow passes when it has no problems. -/
theorem validate_eq_ok_iff {w : Workflow} : w.validate = .ok () ↔ w.problems = [] := by
  unfold validate
  cases w.problems with
  | nil => simp
  | cons p ps => simp

/-- Data is taken like its nodes when there is a document for it. -/
theorem ofValue_eq {v : Value} (h : v.hasNestedTag = false) :
    ofValue v = checkRequired v >>= fun _ => decodeDocument (valueNode v) := by
  rw [ofValue, h]
  rfl

/-- Data is accepted when no required field is missing, there is a document for it and it fits the
    schema. -/
theorem ofValue_eq_ok_iff_decode {v : Value} {w : Workflow} :
    ofValue v = .ok w ↔
      checkRequired v = .ok () ∧ v.hasNestedTag = false ∧ Workflow.decode (valueNode v) = .ok w := by
  cases htags : v.hasNestedTag with
  | true => simp [ofValue, htags, bind_eq_ok_iff]
  | false =>
    rw [ofValue_eq htags, bind_eq_ok_iff]
    simp only [decodeDocument_eq_ok_iff, true_and]
    exact ⟨fun h => h.choose_spec, fun h => ⟨(), h⟩⟩

/-- A document is accepted when no required field is missing, it fits the schema and has no
    problems. -/
theorem ofText_eq_ok_iff {text : String} {n : Node} {v : Value} {w : Workflow}
    (hread : readNode text = .ok (n, v)) :
    ofText text = .ok w ↔
      checkRequired v = .ok () ∧ Workflow.decode n = .ok w ∧ w.problems = [] := by
  unfold ofText
  rw [hread]
  show (checkRequired v >>= fun _ => decodeDocument n >>= fun w' => w'.validate >>= fun _ =>
    pure w') = .ok w ↔ _
  simp only [bind_eq_ok_iff, decodeDocument_eq_ok_iff]
  constructor
  · intro ⟨_, hcheck, w', hdecode, _, hvalid, hw⟩
    cases hw
    exact ⟨hcheck, hdecode, validate_eq_ok_iff.mp hvalid⟩
  · intro ⟨hcheck, hdecode, hproblems⟩
    exact ⟨(), hcheck, w, hdecode, (), validate_eq_ok_iff.mpr hproblems, rfl⟩

/-- A text that is accepted is a workflow without problems. -/
theorem problems_of_ofText {text : String} {w : Workflow} (h : ofText text = .ok w) :
    w.problems = [] := by
  cases hread : readNode text with
  | error e =>
    rw [ofText, hread] at h
    cases h
  | ok document => exact ((ofText_eq_ok_iff hread).mp h).2.2

end Workflow

end RunPlan
