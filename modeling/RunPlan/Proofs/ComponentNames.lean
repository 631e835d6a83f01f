import RunPlan.Command.Arguments
import RunPlan.Proofs.Component

/-!
# Texts that name a component

A component is given on the command line by a text. This file says which texts are
accepted: the names, and for a worker the texts that differ from its name in a plus sign
before the index or zeros in front of it. So a component has one name but a worker has other
spellings, and two texts stand for one component only if they differ in this.

## Key results

- `Component.spelled_inj`: a worker has different texts for different spellings
-/

namespace RunPlan.Component

open Command

/-- Different spellings of a worker are different texts. -/
theorem spelled_inj {c : Component} {plus plus' : Bool} {zeros zeros' : Nat} :
    c.spelled plus zeros = c.spelled plus' zeros' ↔
      c.isWorker = false ∨ plus = plus' ∧ zeros = zeros' := by
  have hworker (kind : String) (i : UInt32) :
      kind ++ String.ofList (Numeral.spelled plus zeros i.toNat) =
        kind ++ String.ofList (Numeral.spelled plus' zeros' i.toNat) ↔
      plus = plus' ∧ zeros = zeros' := by
    constructor
    · intro h
      have hlists := congrArg String.toList h
      simp only [String.toList_append, String.toList_ofList] at hlists
      exact Numeral.spelled_inj (List.append_cancel_left hlists)
    · rintro ⟨rfl, rfl⟩
      rfl
  cases c with
  | main => exact iff_of_true rfl (.inl rfl)
  | trainProxy => exact iff_of_true rfl (.inl rfl)
  | rolloutWorker i => exact (hworker _ i).trans (or_iff_right Bool.noConfusion).symm
  | trainWorker i => exact (hworker _ i).trans (or_iff_right Bool.noConfusion).symm

/-- The texts that are accepted as a component on the command line. -/
theorem read?_eq_some_iff {text : String} {a : Argument} :
    ArgumentKind.component.read? text = some a ↔
      ∃ c plus zeros, a = .component c ∧ text = spelled plus zeros c := by
  simp only [ArgumentKind.read?]
  constructor
  · intro h
    split at h
    · rename_i c hparse
      obtain ⟨plus, zeros, hspelled⟩ := parse_eq_ok_iff.mp hparse
      exact ⟨c, plus, zeros, (Option.some.inj h).symm, hspelled⟩
    · cases h
  · rintro ⟨c, plus, zeros, rfl, hspelled⟩
    rw [parse_eq_ok_iff.mpr ⟨plus, zeros, hspelled⟩]

/-- A text is read as a component exactly if it is the name of the component, up to a plus
    sign and zeros in front of an index. The command line accepts these texts and no others,
    and two texts of one component are spellings of a worker that differ in this. -/
theorem accepted_iff_spelled (text : String) :
    (∀ c, parse text = .ok c ↔ ∃ plus zeros, text = spelled plus zeros c) ∧
      (∀ a, ArgumentKind.component.read? text = some a ↔
        ∃ c plus zeros, a = .component c ∧ text = spelled plus zeros c) ∧
      (∀ c plus zeros, text = spelled plus zeros c →
        (text = c.name ↔ c.isWorker = false ∨ plus = false ∧ zeros = 0)) ∧
      ∀ c other, parse text = .ok c → parse other = .ok c → text ≠ other →
        c.isWorker = true ∧ ∃ style style' : Bool × Nat, style ≠ style' ∧
          text = spelled style.1 style.2 c ∧ other = spelled style'.1 style'.2 c := by
  refine ⟨fun c => parse_eq_ok_iff, fun a => read?_eq_some_iff, ?_, ?_⟩
  · intro c plus zeros hspelled
    rw [hspelled, ← spelled_canonical]
    exact spelled_inj
  · intro c other htext hother hne
    obtain ⟨plus, zeros, rfl⟩ := parse_eq_ok_iff.mp htext
    obtain ⟨plus', zeros', rfl⟩ := parse_eq_ok_iff.mp hother
    have hdiffer := mt spelled_inj.mpr hne
    refine ⟨?_, (plus, zeros), (plus', zeros'), ?_, rfl, rfl⟩
    · exact eq_true_of_ne_false fun h => hdiffer (.inl h)
    · intro heq
      exact hdiffer (.inr (Prod.mk.inj heq))

/-- A component has texts other than its name. -/
theorem parse_ok_name_ne :
    ∃ c, parse "rollout_worker.007" = .ok c ∧ c.name ≠ "rollout_worker.007" :=
  ⟨rolloutWorker 7, by decide +kernel, by decide +kernel⟩

end RunPlan.Component
