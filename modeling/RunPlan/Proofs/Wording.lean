import RunPlan.Proofs.Merging
import RunPlan.Proofs.SettingInteger

/-!
# How a document must be worded for settings to show it

Strict reading takes a field as it is written, and settings take it for what it looks like and
spell that anew. The settings show what strict reading finds where the document is worded in a
way that hides the difference: texts as settings spell them, whole numbers that settings take
for integers, nulls that are null for settings, and sections with something under them
(`Wording.workflow`).

## Key results

- `Shape.ReadsAlike`: the settings of a node show what strict reading finds in it exactly when the
  node has a wording
- `readsAlike_count`, `readsAlike_number` and so on: the wordings of scalars
- `readsAlike_schedule`: the wording of a schedule
-/

namespace RunPlan

open Yaml

/-! ## Wordings -/

namespace Wording

/-- A text that settings spell as it is written. -/
def text (n : Node) : Prop :=
  ∃ s v, n.Names s ∧ Settings.treeOf n = some v ∧ v.text? = some s

/-- A whole number that settings take for an integer. -/
def count (n : Node) : Prop :=
  ∃ k : Int, Settings.treeOf n = some (.int k)

/-- A number that settings spell so that it is the same number. -/
def number (n : Node) : Prop :=
  ∃ s v t, n.Names s ∧ Settings.treeOf n = some v ∧ (∀ s', v ≠ .string s') ∧
    v.text? = some t ∧ readFloat? t.toList = readFloat? s.toList

/-- A name, which settings take for a text. -/
def name (_ : Node) : Prop :=
  True

/-- A schedule in whole numbers. -/
def schedule (n : Node) : Prop :=
  match n.target with
  | .sequence _ items => ∀ item ∈ items, count item
  | _ => count n

/-- An optional value, absent where settings have null. -/
def optional (w : Node → Prop) (n : Node) : Prop :=
  if isAbsent n.target then Settings.treeOf n = some .null else w n

/-- A section with entries, each with the wording that its name asks for. -/
def fields (wordings : List (String × (Node → Prop))) (n : Node) : Prop :=
  ∃ tag entries, n.target = .mapping tag entries ∧
    ∀ entry ∈ entries, ∀ wording ∈ wordings, entry.1.Names wording.1 → wording.2 entry.2

/-- A `logging` section. -/
def logging : Node → Prop :=
  fields [("stdout", name), ("file", name)]

/-- The `main` section. -/
def main : Node → Prop :=
  fields [
    ("num_episodes", optional count), ("num_steps", optional count),
    ("eval_schedule", optional schedule), ("logging", logging)]

/-- The controller. -/
def controller : Node → Prop :=
  fields [("host", text), ("port", count)]

/-- The section `rollout.parallelism`. -/
def parallelism : Node → Prop :=
  fields [
    ("sampling", count), ("eval", optional count), ("min_env_samples", optional count),
    ("grace_factor", optional number), ("controller", optional controller)]

/-- The `rollout` section. -/
def rollout : Node → Prop :=
  fields [("parallelism", optional parallelism), ("logging", logging)]

/-- The section `training.checkpointing`. -/
def checkpointing : Node → Prop :=
  fields [("path", text), ("interval", count)]

/-- The section `training.proxy`. -/
def proxy : Node → Prop :=
  fields [("host", text), ("frontend", count), ("backend", count)]

/-- The `training` section. -/
def training : Node → Prop :=
  fields [
    ("mode", name), ("load_path", optional text), ("load_episode", optional count),
    ("checkpointing", optional checkpointing), ("proxy", optional proxy),
    ("num_workers", optional count), ("logging", logging)]

/-- A document. -/
def workflow : Node → Prop :=
  fields [
    ("job", text), ("scenario_path", text), ("log_path", text), ("main", main),
    ("rollout", rollout), ("training", training)]

end Wording

/-- Strict reading finds only tabular nodes for a shape, and the settings of a node show what
    it finds exactly when the node has a wording. -/
structure Shape.ReadsAlike {β : Type} (shape : Shape β) (worded : Node → Prop) : Prop where
  isTabular {path : NodePath} {n : Node} {b : β} (hn : n.IsUntagged)
    (h : shape.decode path n = .ok b) : n.IsTabular
  shows_iff {path : NodePath} {n : Node} {b : β} (hn : n.IsUntagged)
    (h : shape.decode path n = .ok b) :
    (∃ v, Settings.treeOf n = some v ∧ shape.shows v b) ↔ worded n

variable {β : Type} {path : NodePath} {n : Node}

/-! ## Scalars -/

/-- What is decoded from a scalar only. -/
theorem Shape.ReadsAlike.ofScalar {shape : Shape β} {worded : Node → Prop}
    (h : ∀ {path n b}, n.IsUntagged → shape.decode path n = .ok b →
      ∃ plain s, n.target = .scalar none plain s ∧
        ((∃ v, Settings.treeOf n = some v ∧ shape.shows v b) ↔ worded n)) :
    shape.ReadsAlike worded where
  isTabular hn hdecode := by
    obtain ⟨plain, s, htarget, -⟩ := h hn hdecode
    apply Node.IsTabular.of_target hn
    rw [htarget]
    exact .scalar plain s
  shows_iff hn hdecode := by
    obtain ⟨_, _, -, hshows⟩ := h hn hdecode
    exact hshows

/-- A scalar behind aliases has no tag. -/
private theorem eq_none_of_isUntagged {tag : Option String} {plain : Bool} {s : String}
    (hn : n.IsUntagged) (htarget : n.target = .scalar tag plain s) : tag = none := by
  have huntagged := hn.target
  rw [htarget] at huntagged
  cases huntagged
  rfl

/-- The tree of a scalar behind aliases. -/
private theorem treeOf_of_target {tag : Option String} {plain : Bool} {s : String}
    (hn : n.IsUntagged) (htarget : n.target = .scalar tag plain s) :
    Settings.treeOf n = Settings.scalarValue tag plain s := by
  rw [← hn.treeOf_target, htarget]
  rfl

/-- A text is decoded from a scalar. -/
private theorem target_of_decodeText {expected s : String}
    (h : decodeText expected path n = .ok s) : ∃ tag plain, n.target = .scalar tag plain s := by
  unfold decodeText at h
  split at h
  · rename_i tag plain t htarget
    rw [← Except.ok.inj h]
    exact ⟨tag, plain, htarget⟩
  · cases h

/-- Settings show a text that they spell as it is written. -/
private theorem exists_text_iff {s : String} (hs : n.Names s) :
    (∃ v, Settings.treeOf n = some v ∧ v.text? = some s) ↔ Wording.text n := by
  constructor
  · rintro ⟨v, hv, htext⟩
    exact ⟨s, v, hs, hv, htext⟩
  · rintro ⟨s', v, hs', hv, htext⟩
    rw [hs.unique hs']
    exact ⟨v, hv, htext⟩

theorem readsAlike_text : textShape.ReadsAlike Wording.text := by
  apply Shape.ReadsAlike.ofScalar
  intro path n s hn h
  obtain ⟨tag, plain, htarget⟩ := target_of_decodeText h
  obtain rfl := eq_none_of_isUntagged hn htarget
  exact ⟨plain, s, htarget, exists_text_iff ⟨none, plain, htarget⟩⟩

theorem readsAlike_path : pathShape.ReadsAlike Wording.text := by
  apply Shape.ReadsAlike.ofScalar
  intro path n p hn h
  obtain ⟨s, hs, rfl⟩ := map_eq_ok_iff.mp h
  obtain ⟨tag, plain, htarget⟩ := target_of_decodeText hs
  obtain rfl := eq_none_of_isUntagged hn htarget
  exact ⟨plain, s, htarget, exists_text_iff ⟨none, plain, htarget⟩⟩

/-- A whole number is decoded from a plain scalar that is an integer. -/
private theorem target_of_decodeNat {largest k : Nat} {expected : String}
    (h : decodeNat largest expected path n = .ok k) :
    ∃ tag s, n.target = .scalar tag true s ∧ Yaml.plainValue s = some (.int k) ∧
      k ≤ largest := by
  unfold decodeNat at h
  split at h
  · rename_i tag plain s htarget
    split at h
    · rename_i m hm
      split at h
      · rename_i hle
        obtain rfl := Except.ok.inj h
        cases plain with
        | false => cases hm
        | true => exact ⟨tag, s, htarget, plainValue_of_readUnsigned? hm, hle⟩
      · cases h
    · cases h
  · cases h

/-- Settings show an integer that they have at all. -/
private theorem exists_int_iff {plain : Bool} {s : String} {k : Int} (hn : n.IsUntagged)
    (htarget : n.target = .scalar none plain s)
    (hk : Yaml.scalarValue none plain s = some (.int k)) :
    (∃ v, Settings.treeOf n = some v ∧ v = .int k) ↔ Wording.count n := by
  constructor
  · rintro ⟨v, hv, rfl⟩
    exact ⟨k, hv⟩
  · rintro ⟨m, hm⟩
    have hm' := hm
    rw [treeOf_of_target hn htarget] at hm'
    cases plain with
    | false => cases hk
    | true =>
      rw [Settings.eq_of_plainValue_int hk hm'] at hm
      exact ⟨.int k, hm, rfl⟩

theorem readsAlike_count : countShape.ReadsAlike Wording.count := by
  apply Shape.ReadsAlike.ofScalar
  intro path n b hn h
  obtain ⟨k, hk, rfl⟩ := map_eq_ok_iff.mp h
  obtain ⟨tag, s, htarget, hvalue, hle⟩ := target_of_decodeNat hk
  obtain rfl := eq_none_of_isUntagged hn htarget
  have hword : Value.ofUInt32 (UInt32.ofNat k) = .int k := by
    rw [Value.ofUInt32, UInt32.toNat_ofNat_of_lt' (by simp only [UInt32.size]; omega)]
  refine ⟨true, s, htarget, ?_⟩
  rw [← exists_int_iff hn htarget hvalue, ← hword]
  rfl

theorem readsAlike_port : portShape.ReadsAlike Wording.count := by
  apply Shape.ReadsAlike.ofScalar
  intro path n b hn h
  obtain ⟨k, hk, rfl⟩ := map_eq_ok_iff.mp h
  obtain ⟨tag, s, htarget, hvalue, hle⟩ := target_of_decodeNat hk
  obtain rfl := eq_none_of_isUntagged hn htarget
  have hword : Value.ofUInt16 (UInt16.ofNat k) = .int k := by
    rw [Value.ofUInt16, UInt16.toNat_ofNat_of_lt' (by simp only [UInt16.size]; omega)]
  refine ⟨true, s, htarget, ?_⟩
  rw [← exists_int_iff hn htarget hvalue, ← hword]
  rfl

theorem readsAlike_number : numberShape.ReadsAlike Wording.number := by
  apply Shape.ReadsAlike.ofScalar
  intro path n x hn h
  obtain ⟨plain, s, htarget, hread⟩ : ∃ plain s, n.target = .scalar none plain s ∧
      readFloat? s.toList = some x := by
    change decodeFloat path n = .ok x at h
    unfold decodeFloat at h
    split at h
    · rename_i tag plain s htarget
      obtain rfl := eq_none_of_isUntagged hn htarget
      split at h
      · rename_i y hy
        rw [← Except.ok.inj h]
        cases plain with
        | false => cases hy
        | true => exact ⟨true, s, htarget, hy⟩
      · cases h
    · cases h
  have hs : n.Names s := ⟨none, plain, htarget⟩
  refine ⟨plain, s, htarget, ?_⟩
  constructor
  · rintro ⟨v, hv, hstring, t, ht, hsame⟩
    exact ⟨s, v, t, hs, hv, hstring, ht, hsame.trans hread.symm⟩
  · rintro ⟨s', v, t, hs', hv, hstring, ht, hsame⟩
    rw [← hs.unique hs'] at hsame
    exact ⟨v, hv, hstring, t, ht, hsame.trans hread⟩

/-- A name that is a text for settings. -/
theorem readsAlike_name {ofName? : String → Option β} {known : List String}
    (hnames : ∀ s b, ofName? s = some b → Settings.plainValue s = some (.string s)) :
    (nameShape ofName? known).ReadsAlike Wording.name := by
  apply Shape.ReadsAlike.ofScalar
  intro path n b hn h
  obtain ⟨plain, s, htarget, hs⟩ : ∃ plain s, n.target = .scalar none plain s ∧
      ofName? s = some b := by
    change decodeVariant ofName? known path n = .ok b at h
    have huntagged := hn.target
    unfold decodeVariant at h
    split at h
    · rename_i tag plain s htarget
      obtain rfl := eq_none_of_isUntagged hn htarget
      refine ⟨plain, s, htarget, ?_⟩
      simp only [tagKind] at h
      split at h
      · rename_i b' hb'
        rw [hb', Except.ok.inj h]
      · cases h
    · rename_i hscalar
      -- a node without a tag of its own has no name at all
      generalize n.target = target at h huntagged hscalar
      cases huntagged with
      | scalar plain s => exact absurd rfl (hscalar none plain s)
      | sequence => cases h
      | mapping => cases h
      | reference => cases h
  refine ⟨plain, s, htarget, ?_⟩
  have htree : Settings.treeOf n = some (.string s) := by
    rw [treeOf_of_target hn htarget]
    cases plain with
    | false => rfl
    | true => exact hnames s b hs
  exact ⟨fun _ => trivial, fun _ => ⟨.string s, htree, s, rfl, hs⟩⟩

theorem readsAlike_level : levelShape.ReadsAlike Wording.name := by
  apply readsAlike_name
  intro s b hs
  unfold LogLevel.ofName? at hs
  split at hs
  · rfl
  · rfl
  · rfl
  · rfl
  · rfl
  · cases hs

theorem readsAlike_mode : modeShape.ReadsAlike Wording.name := by
  apply readsAlike_name
  intro s b hs
  unfold TrainingMode.ofName? at hs
  split at hs
  · rfl
  · rfl
  · cases hs

/-! ## Optional values -/

/-- A blank scalar, or a null, is tabular like any scalar. -/
private theorem isTabular_of_isAbsent (hn : n.IsUntagged) (h : isAbsent n.target = true) :
    n.IsTabular := by
  apply Node.IsTabular.of_target hn
  have huntagged := hn.target
  generalize n.target = target at h huntagged
  cases huntagged with
  | scalar plain s => exact .scalar plain s
  | sequence => cases h
  | mapping => cases h
  | reference => cases h

/-- What is null among settings is absent for strict reading, too. -/
theorem isAbsent_of_treeOf (hn : n.IsUntagged) (h : Settings.treeOf n = some .null) :
    isAbsent n.target = true := by
  rw [← hn.treeOf_target] at h
  have huntagged := hn.target
  have hcomplete := hn.target_ne_reference
  generalize n.target = target at h huntagged hcomplete
  cases huntagged with
  | scalar plain s =>
    cases plain with
    | false => cases h
    | true =>
      cases Settings.isPlainValue_of_plainValue h with
      | null hnull =>
        obtain rfl | rfl | rfl := hnull
        · rfl
        · rfl
        · rfl
  | sequence =>
    obtain ⟨_, -, hvalue⟩ := Option.map_eq_some_iff.mp h
    cases hvalue
  | mapping =>
    obtain ⟨_, -, hvalue⟩ := Option.map_eq_some_iff.mp h
    cases hvalue
  | reference => exact absurd rfl (hcomplete _)

theorem Shape.ReadsAlike.optional {shape : Shape β} {worded : Node → Prop}
    (h : shape.ReadsAlike worded) : shape.optional.ReadsAlike (Wording.optional worded) where
  isTabular {path n o} hn hdecode := by
    change decodeOption shape.decode path n = .ok o at hdecode
    unfold decodeOption at hdecode
    split at hdecode
    · rename_i habsent
      exact isTabular_of_isAbsent hn habsent
    · obtain ⟨b, hb, -⟩ := map_eq_ok_iff.mp hdecode
      exact h.isTabular hn hb
  shows_iff {path n o} hn hdecode := by
    change decodeOption shape.decode path n = .ok o at hdecode
    unfold decodeOption at hdecode
    unfold Wording.optional
    split at hdecode
    · rename_i habsent
      obtain rfl := Except.ok.inj hdecode
      rw [if_pos habsent]
      constructor
      · rintro ⟨v, hv, rfl⟩
        exact hv
      · intro hv
        exact ⟨.null, hv, rfl⟩
    · rename_i hpresent
      obtain ⟨b, hb, rfl⟩ := map_eq_ok_iff.mp hdecode
      rw [if_neg hpresent, ← h.shows_iff hn hb]
      constructor
      · rintro ⟨v, hv, -, hshows⟩
        exact ⟨v, hv, hshows⟩
      · rintro ⟨v, hv, hshows⟩
        refine ⟨v, hv, ?_, hshows⟩
        rintro rfl
        exact hpresent (isAbsent_of_treeOf hn hv)

/-! ## Schedules -/

/-- An episode is decoded from a scalar that is an integer. -/
private theorem target_of_episodeOf? {k : UInt32} (h : episodeOf? n = some k) :
    ∃ tag plain s, n.target = .scalar tag plain s ∧
      Yaml.scalarValue tag plain s = some (.ofUInt32 k) := by
  unfold episodeOf? at h
  split at h
  · rename_i tag plain s htarget
    split at h
    · rename_i m hm
      split at h
      · rename_i hlt
        obtain rfl := Option.some.inj h
        refine ⟨tag, plain, s, htarget, ?_⟩
        rw [hm, Value.ofUInt32, UInt32.toNat_ofNat_of_lt' (by simpa [UInt32.size] using hlt)]
        rfl
      · cases h
    · cases h
  · cases h

/-- Settings show an episode that they take for an integer. -/
private theorem episode_iff {k : UInt32} (hn : n.IsUntagged) (h : episodeOf? n = some k) :
    Settings.treeOf n = some (.ofUInt32 k) ↔ Wording.count n := by
  obtain ⟨tag, plain, s, htarget, hvalue⟩ := target_of_episodeOf? h
  obtain rfl := eq_none_of_isUntagged hn htarget
  rw [← exists_int_iff hn htarget hvalue]
  simp [Value.ofUInt32]

/-- Settings show a list of episodes when they take each of them for an integer. -/
private theorem episodes_iff {items : List Node} {list : List UInt32}
    (hitems : ∀ item ∈ items, item.IsUntagged) (h : items.mapM episodeOf? = some list) :
    Settings.treeItems items = some (list.map .ofUInt32) ↔ ∀ item ∈ items, Wording.count item := by
  induction items generalizing list with
  | nil =>
    obtain rfl := Option.some.inj h
    exact ⟨fun _ => List.forall_mem_nil _, fun _ => rfl⟩
  | cons item items ih =>
    rw [List.forall_mem_cons] at hitems ⊢
    rw [List.mapM_cons] at h
    obtain ⟨k, hk, hrest⟩ := Option.bind_eq_some_iff.mp h
    obtain ⟨rest, hepisodes, hlist⟩ := Option.bind_eq_some_iff.mp hrest
    obtain rfl := Option.some.inj hlist
    rw [← episode_iff hitems.1 hk, ← ih hitems.2 hepisodes, List.map_cons, Settings.treeItems]
    constructor
    · intro htree
      split at htree
      · rename_i v vs hv hvs
        obtain ⟨rfl, rfl⟩ := List.cons.inj (Option.some.inj htree)
        exact ⟨hv, hvs⟩
      · cases htree
    · rintro ⟨hv, hvs⟩
      rw [hv, hvs]

/-- Items that are episodes are scalars. -/
private theorem isTabular_of_episodes {items : List Node} {list : List UInt32}
    (hitems : ∀ item ∈ items, item.IsUntagged) (h : items.mapM episodeOf? = some list) :
    ∀ item ∈ items, item.IsTabular := by
  induction items generalizing list with
  | nil => exact List.forall_mem_nil _
  | cons item items ih =>
    rw [List.forall_mem_cons] at hitems ⊢
    rw [List.mapM_cons] at h
    obtain ⟨k, hk, hrest⟩ := Option.bind_eq_some_iff.mp h
    obtain ⟨rest, hitems', -⟩ := Option.bind_eq_some_iff.mp hrest
    refine ⟨?_, ih hitems.2 hitems'⟩
    obtain ⟨tag, plain, s, htarget, -⟩ := target_of_episodeOf? hk
    obtain rfl := eq_none_of_isUntagged hitems.1 htarget
    apply Node.IsTabular.of_target hitems.1
    rw [htarget]
    exact .scalar plain s

/-- A schedule is decoded from a list of episodes, or from one of them. -/
private theorem target_of_decodeSchedule {b : EvalSchedule} (hn : n.IsUntagged)
    (h : decodeSchedule path n = .ok b) :
    (∃ items list, n.target = .sequence none items ∧ (∀ item ∈ items, item.IsUntagged) ∧
      items.mapM episodeOf? = some list ∧ b = .episodes list) ∨
    (∃ k, episodeOf? n = some k ∧ b = .interval k) := by
  have huntagged := hn.target
  unfold decodeSchedule at h
  split at h
  · cases h
  split at h
  · rename_i s hs
    obtain rfl := Except.ok.inj h
    unfold scheduleOf? at hs
    split at hs
    · rename_i tag items htarget
      rw [htarget] at huntagged
      cases huntagged with
      | sequence hitems =>
        obtain ⟨list, hlist, rfl⟩ := Option.map_eq_some_iff.mp hs
        exact .inl ⟨items, list, htarget, hitems, hlist, rfl⟩
    · obtain ⟨k, hk, rfl⟩ := Option.map_eq_some_iff.mp hs
      unfold episodeOf? at hk ⊢
      rw [hn.target_target] at hk
      exact .inr ⟨k, hk, rfl⟩
  · cases h

theorem readsAlike_schedule : scheduleShape.ReadsAlike Wording.schedule where
  isTabular {path n b} hn h := by
    apply Node.IsTabular.of_target hn
    rcases target_of_decodeSchedule hn h with
      ⟨items, list, htarget, hitems, hlist, rfl⟩ | ⟨k, hk, rfl⟩
    · rw [htarget]
      exact .sequence (isTabular_of_episodes hitems hlist)
    · obtain ⟨tag, plain, s, htarget, -⟩ := target_of_episodeOf? hk
      obtain rfl := eq_none_of_isUntagged hn htarget
      rw [htarget]
      exact .scalar plain s
  shows_iff {path n b} hn h := by
    show (∃ v, Settings.treeOf n = some v ∧ v = b.toValue) ↔ Wording.schedule n
    rw [exists_eq_right, Wording.schedule]
    rcases target_of_decodeSchedule hn h with
      ⟨items, list, htarget, hitems, hlist, rfl⟩ | ⟨k, hk, rfl⟩
    · rw [← hn.treeOf_target, htarget]
      dsimp only
      rw [← episodes_iff hitems hlist, Settings.treeOf, EvalSchedule.toValue]
      simp
    · obtain ⟨tag, plain, s, htarget, -⟩ := target_of_episodeOf? hk
      rw [htarget]
      exact episode_iff hn hk

end RunPlan
