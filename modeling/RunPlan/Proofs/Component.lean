import RunPlan.Component
import RunPlan.Proofs.Numeral
import RunPlan.Proofs.Text

/-!
# Names and order of components

A name is read back as the component that it names, so no two components share one. The
index of a worker can be spelled in other ways too, with a plus sign or with zeros in front,
and no other text is read as a component. The components of a workflow are listed in their
order.

## Key results

- `Component.parse_eq_ok_iff`: what is read as a component is a spelling of its name
- `Component.parse_name`, `Component.name_injective`: names tell components apart
- `Workflow.exists_rolloutWorkers_eq`, `Workflow.trainingProcesses_cases`: the workers of a run
- `Workflow.components_pairwise`: the list of components is in order
-/

namespace RunPlan

open Text

namespace Component

/-! ## Names -/

/-- A text for a component: its name, the index of a worker with a plus sign or without and
    with zeros in front. -/
def spelled (plus : Bool) (zeros : Nat) : Component → String
  | main => "main"
  | rolloutWorker i => "rollout_worker." ++ String.ofList (Numeral.spelled plus zeros i.toNat)
  | trainProxy => "train_proxy"
  | trainWorker i => "train_worker." ++ String.ofList (Numeral.spelled plus zeros i.toNat)

/-- Whether a component is one of several workers, told apart by an index. -/
def isWorker : Component → Bool
  | main | trainProxy => false
  | rolloutWorker _ | trainWorker _ => true

/-- The index of a worker is read from the spellings of its number. -/
theorem parseIndex_eq_ok_iff {whole : String} {index : List Char} {i : UInt32} :
    parseIndex whole index = .ok i ↔
      ∃ plus zeros, index = Numeral.spelled plus zeros i.toNat := by
  have hlt : i.toNat < 2 ^ 32 := i.toNat_lt
  have hread : Numeral.readUnsigned? 10 (2 ^ 32 - 1) index = some i.toNat ↔
      ∃ plus zeros, index = Numeral.spelled plus zeros i.toNat := by
    rw [Numeral.readUnsigned?_eq_some_iff]
    exact and_iff_right (by omega)
  rw [← hread]
  unfold parseIndex
  constructor
  · intro h
    split at h
    · rename_i n hn
      have hle := (Numeral.readUnsigned?_eq_some_iff.mp hn).1
      rw [hn, ← Except.ok.inj h, UInt32.toNat_ofNat_of_lt' (by simp only [UInt32.size]; omega)]
    · cases h
  · intro h
    rw [h]
    exact congrArg Except.ok UInt32.ofNat_toNat

/-- The name of a worker is split at its dot. -/
theorem splitOnce_worker {kind text : String} (hkind : '.' ∉ kind.toList)
    (htext : text.toList = kind.toList ++ ['.']) (index : List Char) :
    splitOnce '.' (text ++ String.ofList index).toList = some (kind.toList, index) := by
  rw [String.toList_append, String.toList_ofList, htext, List.append_assoc]
  exact splitOnce_append hkind _

/-- A text that is split at a dot is put together again. -/
theorem eq_append_of_splitOnce {text front : String} {kind index : List Char}
    (h : splitOnce '.' text.toList = some (kind, index))
    (hfront : front.toList = kind ++ ['.']) : text = front ++ String.ofList index := by
  rw [← String.toList_inj, String.toList_append, String.toList_ofList, hfront, List.append_assoc]
  exact (splitOnce_eq_some_iff.mp h).2

/-- The texts that are read as a component are its spellings. -/
theorem parse_eq_ok_iff {text : String} {c : Component} :
    parse text = .ok c ↔ ∃ plus zeros, text = c.spelled plus zeros := by
  have hmap {worker : UInt32 → Component} {index : List Char}
      (h : worker <$> parseIndex text index = .ok c) :
      ∃ i plus zeros, c = worker i ∧ index = Numeral.spelled plus zeros i.toNat := by
    cases hindex : parseIndex text index with
    | error e =>
      rw [hindex] at h
      cases h
    | ok i =>
      rw [hindex] at h
      obtain ⟨plus, zeros, hspelled⟩ := parseIndex_eq_ok_iff.mp hindex
      exact ⟨i, plus, zeros, (Except.ok.inj h).symm, hspelled⟩
  constructor
  · intro h
    unfold parse at h
    dsimp only at h
    split at h
    · split at h
      · obtain rfl := Except.ok.inj h
        exact ⟨false, 0, by assumption⟩
      · split at h
        · obtain rfl := Except.ok.inj h
          exact ⟨false, 0, by assumption⟩
        · cases h
    · rename_i kind index hsplit
      split at h
      · rename_i hkind
        obtain ⟨i, plus, zeros, rfl, rfl⟩ := hmap h
        exact ⟨plus, zeros, eq_append_of_splitOnce hsplit (by rw [hkind]; rfl)⟩
      · split at h
        · rename_i hkind
          obtain ⟨i, plus, zeros, rfl, rfl⟩ := hmap h
          exact ⟨plus, zeros, eq_append_of_splitOnce hsplit (by rw [hkind]; rfl)⟩
        · cases h
  · rintro ⟨plus, zeros, rfl⟩
    have hindex (whole : String) (i : UInt32) :
        parseIndex whole (Numeral.spelled plus zeros i.toNat) = .ok i :=
      parseIndex_eq_ok_iff.mpr ⟨plus, zeros, rfl⟩
    cases c with
    | main => exact (rfl : parse "main" = .ok main)
    | trainProxy => exact (rfl : parse "train_proxy" = .ok trainProxy)
    | rolloutWorker i =>
      have hsplit : splitOnce '.' ((rolloutWorker i).spelled plus zeros).toList =
          some ("rollout_worker".toList, Numeral.spelled plus zeros i.toNat) :=
        splitOnce_worker (by decide) (by decide) _
      unfold parse
      simp only [hsplit, if_true, hindex]
      rfl
    | trainWorker i =>
      have hsplit : splitOnce '.' ((trainWorker i).spelled plus zeros).toList =
          some ("train_worker".toList, Numeral.spelled plus zeros i.toNat) :=
        splitOnce_worker (by decide) (by decide) _
      have hother : "train_worker".toList ≠ "rollout_worker".toList := by decide
      unfold parse
      simp only [hsplit, if_neg hother, if_true, hindex]
      rfl

/-- A component is spelled in one way as its name. -/
theorem spelled_canonical (c : Component) : c.spelled false 0 = c.name := by
  cases c <;> rfl

/-- The name of a component is read back. -/
theorem parse_name (c : Component) : parse c.name = .ok c :=
  parse_eq_ok_iff.mpr ⟨false, 0, c.spelled_canonical.symm⟩

/-- No two components share a name. -/
theorem name_injective : Function.Injective name := by
  intro c d h
  have hparse : (.ok c : Except String Component) = .ok d := by
    rw [← parse_name c, h, parse_name d]
  exact Except.ok.inj hparse

/-- A name holds letters, digits, a dot and underscores. -/
theorem separator_notMem_name (c : Component) : '/' ∉ c.name.toList := by
  have hworker {kind : String} (hkind : '/' ∉ kind.toList) (i : UInt32) :
      '/' ∉ (kind ++ Numeral.ofNat i.toNat).toList := by
    rw [String.toList_append, List.mem_append]
    exact not_or_intro hkind fun h => absurd (Numeral.isDigit_of_mem_ofNat h) (by decide)
  cases c with
  | main => decide
  | trainProxy => decide
  | rolloutWorker i => exact hworker (by decide) i
  | trainWorker i => exact hworker (by decide) i

/-- A name is not all dots. -/
theorem exists_mem_name_ne_dot (c : Component) : ∃ x ∈ c.name.toList, x ≠ '.' := by
  cases c with
  | main => exact ⟨'m', by decide, by decide⟩
  | trainProxy => exact ⟨'t', by decide, by decide⟩
  | rolloutWorker i => exact ⟨'r', by simp [name], by decide⟩
  | trainWorker i => exact ⟨'t', by simp [name], by decide⟩

/-! ## Order -/

/-- The order compares kinds first, then indices. -/
theorem before_iff {c d : Component} :
    c.before d = true ↔ c.key.1 < d.key.1 ∨ c.key.1 = d.key.1 ∧ c.key.2 < d.key.2 := by
  simp [before]

end Component

/-- Indices are the numbers from zero on. -/
theorem map_toNat_indicesBelow (count : UInt32) :
    (indicesBelow count).map UInt32.toNat = List.range count.toNat := by
  rw [indicesBelow, List.map_map]
  apply (List.map_congr_left fun n hn => ?_).trans (List.map_id _)
  -- no index is beyond 32 bits
  exact UInt32.toNat_ofNat_of_lt' (Nat.lt_trans (List.mem_range.mp hn) count.toNat_lt)

/-- Indices are listed in ascending order. -/
theorem indicesBelow_pairwise (count : UInt32) : (indicesBelow count).Pairwise (· < ·) := by
  have hrange : (List.range count.toNat).Pairwise (· < ·) := List.pairwise_lt_range
  rw [← map_toNat_indicesBelow, List.pairwise_map] at hrange
  exact hrange.imp UInt32.lt_iff_toNat_lt.mpr

namespace Workflow

variable {w : Workflow} {c : Component}

/-- The rollout workers have the indices below some number, which is zero when rollout is not
    distributed. -/
theorem exists_rolloutWorkers_eq (w : Workflow) :
    ∃ n, w.rolloutWorkers = (indicesBelow n).map .rolloutWorker := by
  unfold rolloutWorkers
  split
  · split
    · exact ⟨_, rfl⟩
    · exact ⟨0, rfl⟩
  · exact ⟨0, rfl⟩

/-- The training processes are none, or the proxy and workers with the indices below some
    number. -/
theorem trainingProcesses_cases (w : Workflow) :
    w.trainingProcesses = [] ∨
      ∃ n, w.trainingProcesses = .trainProxy :: (indicesBelow n).map .trainWorker := by
  unfold trainingProcesses
  cases w.training.mode with
  | simple => exact .inl rfl
  | parallel => exact .inr ⟨_, rfl⟩

/-- Workers of one kind are listed by index. -/
private theorem map_indicesBelow_pairwise {kind : Nat} {worker : UInt32 → Component}
    (hkey : ∀ i, (worker i).key = (kind, i.toNat)) (n : UInt32) :
    ((indicesBelow n).map worker).Pairwise (fun c d => c.before d = true) := by
  rw [List.pairwise_map]
  apply (indicesBelow_pairwise n).imp
  intro i j hij
  rw [Component.before_iff, hkey, hkey]
  exact Or.inr ⟨rfl, UInt32.lt_iff_toNat_lt.mp hij⟩

/-- The kind of rollout workers. -/
private theorem key_of_mem_rolloutWorkers (h : c ∈ w.rolloutWorkers) : c.key.1 = 1 := by
  obtain ⟨n, hn⟩ := w.exists_rolloutWorkers_eq
  rw [hn] at h
  obtain ⟨i, -, rfl⟩ := List.mem_map.mp h
  rfl

/-- Rollout workers are listed by index. -/
private theorem rolloutWorkers_pairwise (w : Workflow) :
    w.rolloutWorkers.Pairwise (fun c d => c.before d = true) := by
  obtain ⟨n, hn⟩ := w.exists_rolloutWorkers_eq
  rw [hn]
  exact map_indicesBelow_pairwise (fun _ => rfl) n

/-- Training processes come after all others, the proxy first. -/
private theorem trainingProcesses_pairwise (w : Workflow) :
    (∀ c ∈ w.trainingProcesses, 2 ≤ c.key.1) ∧
      w.trainingProcesses.Pairwise (fun c d => c.before d = true) := by
  rcases w.trainingProcesses_cases with hnone | ⟨n, hn⟩
  · rw [hnone]
    exact ⟨List.forall_mem_nil _, .nil⟩
  · have hworker (c : Component) (hc : c ∈ (indicesBelow n).map .trainWorker) : c.key.1 = 3 := by
      obtain ⟨i, -, rfl⟩ := List.mem_map.mp hc
      rfl
    rw [hn]
    constructor
    · refine List.forall_mem_cons.mpr ⟨Nat.le_refl 2, fun c hc => ?_⟩
      rw [hworker c hc]
      decide
    · refine List.pairwise_cons.mpr ⟨fun c hc => ?_, map_indicesBelow_pairwise (fun _ => rfl) n⟩
      apply Component.before_iff.mpr
      rw [hworker c hc]
      exact Or.inl (by decide)

/-- Components are listed in their order. -/
theorem components_pairwise (w : Workflow) :
    w.components.Pairwise (fun c d => c.before d = true) := by
  obtain ⟨htraining, hordered⟩ := trainingProcesses_pairwise w
  unfold components
  refine List.pairwise_cons.mpr ⟨fun c hc => ?_, List.pairwise_append.mpr
    ⟨rolloutWorkers_pairwise w, hordered, fun c hc d hd => ?_⟩⟩
  · -- every other kind comes after the main process
    apply Component.before_iff.mpr
    left
    show 0 < c.key.1
    cases List.mem_append.mp hc with
    | inl hc => rw [key_of_mem_rolloutWorkers hc]; decide
    | inr hc => exact Nat.lt_of_lt_of_le (by decide) (htraining c hc)
  · apply Component.before_iff.mpr
    left
    rw [key_of_mem_rolloutWorkers hc]
    exact htraining d hd

/-- No component is listed twice. -/
theorem components_nodup (w : Workflow) : w.components.Nodup := by
  apply (components_pairwise w).imp
  rintro c d h rfl
  simp [Component.before_iff] at h

end Workflow

end RunPlan
