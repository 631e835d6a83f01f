import RunPlan.Proofs.Assign
import RunPlan.Proofs.Entries
import RunPlan.Proofs.Settings
import RunPlan.Proofs.Yaml.Agreement
import RunPlan.Yaml.Strict
import Mathlib.Data.List.TakeWhile

/-!
# Documents that both readers read alike

Strict reading and layered loading read the same nodes from a document without tags whose
mappings have names as keys, no name twice (`Node.IsTabular`), where the start of the text
and the end of its last line are nothing special (`IsOrdinary`). They differ in what the scalars
of the document mean.

## Key results

- `extends_settings`: settings are read from the nodes that strict reading finds
- `Settings.ofText?_eq`: the settings of a document are the tree of its node
-/

namespace RunPlan

open Yaml

/-! ## Names -/

/-- A name that stands for itself in a document, among settings, and as the path of a
    setting. -/
structure IsSettingName (name : String) : Prop where
  plainValue : plainValue name = some (.string name)
  setting : Settings.plainValue name = some (.string name)
  lower : Text.toLower name = name
  path : Settings.keyPath name = [.name name]

/-- Whether both readers take a plain scalar for a text, and keys leave it as it is. -/
def isSettingName (name : String) : Bool :=
  isPlainText name && (Settings.plainValue name matches some (.string _)) &&
    Text.toLower name == name && Settings.keyPath name == [.name name]

/-- A plain scalar that is a text among settings is that text. -/
theorem Settings.eq_of_plainValue_eq_string {text s : String}
    (h : Settings.plainValue text = some (.string s)) : s = text := by
  cases Settings.isPlainValue_of_plainValue h
  rfl

theorem isSettingName_spec {name : String} (h : isSettingName name = true) :
    IsSettingName name := by
  simp only [isSettingName, Bool.and_eq_true, beq_iff_eq] at h
  obtain ⟨⟨⟨hplain, hsetting⟩, hlower⟩, hpath⟩ := h
  refine ⟨plainValue_of_isPlainText hplain, ?_, hlower, hpath⟩
  split at hsetting
  · rename_i s hs
    rw [hs, Settings.eq_of_plainValue_eq_string hs]
  · cases hsetting

/-! ## Nodes without tags -/

namespace Yaml.Node

/-- A node without tags in it, in which every alias stands for a complete node. -/
inductive IsUntagged : Node → Prop where
  | scalar (plain : Bool) (text : String) : IsUntagged (.scalar none plain text)
  | sequence {items : List Node} (h : ∀ n ∈ items, IsUntagged n) :
      IsUntagged (.sequence none items)
  | mapping {entries : List (Node × Node)} (hkeys : ∀ entry ∈ entries, IsUntagged entry.1)
      (h : ∀ entry ∈ entries, IsUntagged entry.2) : IsUntagged (.mapping none entries)
  | reference {n : Node} (h : IsUntagged n) : IsUntagged (.reference (some n))

/-- A key that is a name. -/
structure IsKey (key : Node) (name : String) : Prop where
  untagged : key.IsUntagged
  names : key.Names name
  word : IsSettingName name

/-- A node without tags whose mappings have names as keys, no name twice. -/
inductive IsTabular : Node → Prop where
  | scalar (plain : Bool) (text : String) : IsTabular (.scalar none plain text)
  | sequence {items : List Node} (h : ∀ n ∈ items, IsTabular n) : IsTabular (.sequence none items)
  | mapping {entries : List (Node × Node)} (hkeys : ∀ entry ∈ entries, ∃ name, entry.1.IsKey name)
      (h : ∀ entry ∈ entries, IsTabular entry.2)
      (hdistinct : entries.Pairwise fun a b => ∀ name, a.1.Names name → ¬ b.1.Names name) :
      IsTabular (.mapping none entries)
  | reference {n : Node} (h : IsTabular n) : IsTabular (.reference (some n))

variable {n : Node} {name : String}

/-- Behind aliases there is a node without tags. -/
theorem IsUntagged.target (h : n.IsUntagged) : n.target.IsUntagged := by
  induction h with
  | scalar plain text => exact .scalar plain text
  | sequence h => exact .sequence h
  | mapping hkeys h => exact .mapping hkeys h
  | reference _ ih => exact ih

/-- Behind aliases there is no other alias. -/
theorem IsUntagged.target_ne_reference (h : n.IsUntagged) (m : Option Node) :
    n.target ≠ .reference m := by
  induction h with
  | scalar => exact nofun
  | sequence => exact nofun
  | mapping => exact nofun
  | reference _ ih => exact ih

/-- The node behind aliases is behind no others. -/
theorem IsUntagged.target_target (h : n.IsUntagged) : n.target.target = n.target := by
  induction h with
  | scalar => rfl
  | sequence => rfl
  | mapping => rfl
  | reference _ ih => exact ih

/-- A node is as tabular as the node behind aliases. -/
theorem IsTabular.of_target (h : n.IsUntagged) (htarget : n.target.IsTabular) : n.IsTabular := by
  induction h with
  | scalar plain text => exact htarget
  | sequence h => exact htarget
  | mapping hkeys h => exact htarget
  | reference _ ih => exact .reference (ih htarget)

/-- Behind aliases there is a node as tabular. -/
theorem IsTabular.target (h : n.IsTabular) : n.target.IsTabular := by
  induction h with
  | scalar plain text => exact .scalar plain text
  | sequence h => exact .sequence h
  | mapping hkeys h hdistinct => exact .mapping hkeys h hdistinct
  | reference _ ih => exact ih

/-- The value of a node is that of the node behind aliases. -/
theorem IsUntagged.toValue_target (h : n.IsUntagged) : n.target.toValue = n.toValue := by
  induction h with
  | scalar => rfl
  | sequence => rfl
  | mapping => rfl
  | reference _ ih => exact ih

/-- The tree of a node is that of the node behind aliases. -/
theorem IsUntagged.treeOf_target (h : n.IsUntagged) :
    Settings.treeOf n.target = Settings.treeOf n := by
  induction h with
  | scalar => rfl
  | sequence => rfl
  | mapping => rfl
  | reference _ ih => exact ih

namespace IsKey

/-- A key is a scalar without a tag. -/
theorem target_eq (h : n.IsKey name) : ∃ plain, n.target = .scalar none plain name := by
  obtain ⟨tag, plain, htarget⟩ := h.names
  have huntagged := h.untagged.target
  rw [htarget] at huntagged
  cases huntagged
  exact ⟨plain, htarget⟩

theorem isTabular (h : n.IsKey name) : n.IsTabular := by
  obtain ⟨plain, htarget⟩ := h.target_eq
  refine .of_target h.untagged ?_
  rw [htarget]
  exact .scalar plain name

/-- Strict reading takes a key for its name. -/
theorem toValue_eq (h : n.IsKey name) : n.toValue = some (.string name) := by
  obtain ⟨plain, htarget⟩ := h.target_eq
  rw [← h.untagged.toValue_target, htarget]
  cases plain with
  | false => rfl
  | true =>
    show (Yaml.plainValue name).map (withTag none) = _
    rw [h.word.plainValue]
    rfl

/-- Settings take a key for its name. -/
theorem keyText?_eq (h : n.IsKey name) : Settings.keyText? n = some name := by
  obtain ⟨plain, htarget⟩ := h.target_eq
  unfold Settings.keyText?
  rw [htarget]
  cases plain with
  | false => rfl
  | true =>
    have hvalue : Settings.scalarValue none true name = some (.string name) := h.word.setting
    simp only [hvalue]

end IsKey

end Yaml.Node

/-! ## Reading -/

/-- The keys of a mapping are different names. -/
theorem Yaml.Node.IsTabular.keys {tag : Option String} {entries : List (Node × Node)}
    (h : IsTabular (.mapping tag entries)) :
    entries.Pairwise fun a b => ∃ s t, a.1.IsKey s ∧ b.1.IsKey t ∧ s ≠ t := by
  cases h with
  | mapping hkeys _ hdistinct =>
    refine hdistinct.imp_of_mem fun {a b} ha hb hne => ?_
    obtain ⟨s, hs⟩ := hkeys a ha
    obtain ⟨t, ht⟩ := hkeys b hb
    refine ⟨s, t, hs, ht, ?_⟩
    rintro rfl
    exact hne s hs.names ht.names

/-- Strict reading takes keys apart that are different names. -/
theorem extends_strict : Extends strictDialect strictDialect Node.IsTabular where
  reference := rfl
  accepts h := h
  scalar h := by
    cases h
    rfl
  sequence h := by
    cases h with
    | sequence h => exact ⟨rfl, h⟩
  mapping h := by
    cases h with
    | mapping hkeys h _ =>
      exact ⟨rfl, fun entry hentry => ⟨(hkeys entry hentry).choose_spec.isTabular, h entry hentry⟩⟩
  keys h := by
    refine h.keys.imp fun {a b} ⟨s, t, hs, ht, hne⟩ => ?_
    show sameKeyNode a.1 b.1 = false
    rw [sameKeyNode, hs.toValue_eq, ht.toValue_eq]
    exact beq_false_of_ne hne

/-- Settings take in what strict reading does, and take keys apart that are different names. -/
theorem extends_settings : Extends strictDialect Settings.dialect Node.IsTabular where
  reference := rfl
  accepts _ := rfl
  scalar := extends_strict.scalar
  sequence := extends_strict.sequence
  mapping := extends_strict.mapping
  keys h := by
    refine h.keys.imp fun {a b} ⟨s, t, hs, ht, hne⟩ => ?_
    simp only [Settings.dialect, hs.keyText?_eq, ht.keyText?_eq]
    exact beq_false_of_ne hne

/-- A text that starts without a byte order mark and has an end to its last line. Its lines end
    with line feeds and carriage returns only. -/
structure IsOrdinary (text : String) : Prop where
  noMark : ∀ c ∈ text.toList.head?, c.toNat ≠ 0xFEFF
  noNextLine : ∀ c ∈ text.toList, isNextLine c = false
  endsLine : ∀ c ∈ text.toList.getLast?, c = '\n' ∨ c = '\r'

/-- Where U+0085 does not occur, it makes no difference whether it ends lines. -/
private theorem normalizeBreaks_eq {cs : List Char} (h : ∀ c ∈ cs, isNextLine c = false) :
    normalizeBreaks isNextLine cs = normalizeBreaks (fun _ => false) cs := by
  induction cs using normalizeBreaks.induct with
  | case1 => rfl
  | case2 cs ih =>
    rw [List.forall_mem_cons, List.forall_mem_cons] at h
    rw [normalizeBreaks, normalizeBreaks, ih h.2.2]
  | case3 c cs hpair ih =>
    rw [List.forall_mem_cons] at h
    rw [normalizeBreaks.eq_3 _ _ _ hpair, normalizeBreaks.eq_3 _ _ _ hpair, ih h.2, h.1]

/-- Line ends stay characters. -/
private theorem normalizeBreaks_eq_nil {ends : Char → Bool} {cs : List Char}
    (h : normalizeBreaks ends cs = []) : cs = [] := by
  cases cs using normalizeBreaks.induct with
  | case1 => rfl
  | case2 cs => cases h
  | case3 c cs hpair =>
    rw [normalizeBreaks.eq_3 _ _ _ hpair] at h
    cases h

/-- The last line of a text keeps its end. -/
private theorem endsLine_normalizeBreaks (ends : Char → Bool) {cs : List Char}
    (h : ∀ c ∈ cs.getLast?, c = '\n' ∨ c = '\r') : EndsLine (normalizeBreaks ends cs) := by
  have htail {c : Char} {cs : List Char} (h : ∀ d ∈ (c :: cs).getLast?, d = '\n' ∨ d = '\r') :
      ∀ d ∈ cs.getLast?, d = '\n' ∨ d = '\r' := by
    intro d hd
    apply h d
    rw [List.getLast?_cons, Option.mem_def.mp hd]
    rfl
  have hcons {c : Char} {cs : List Char} (hc : cs = [] → isBreak c = true)
      (hcs : EndsLine cs) : EndsLine (c :: cs) := by
    cases cs with
    | nil =>
      intro d hd
      obtain rfl := Option.some.inj hd
      exact hc rfl
    | cons d cs => exact hcs
  induction cs using normalizeBreaks.induct with
  | case1 => exact fun _ hc => nomatch hc
  | case2 cs ih => exact hcons (fun _ => rfl) (ih (htail (htail h)))
  | case3 c cs hpair ih =>
    rw [normalizeBreaks.eq_3 _ _ _ hpair]
    refine hcons (fun hnil => ?_) (ih (htail h))
    -- the last character is a line feed, or a carriage return that becomes one
    obtain rfl := normalizeBreaks_eq_nil hnil
    obtain rfl | rfl := h c rfl
    · split
      · rfl
      · rfl
    · rfl

/-- The first character is that of the text, or a line end. -/
private theorem head?_normalizeBreaks (ends : Char → Bool) (cs : List Char) :
    ∀ c ∈ (normalizeBreaks ends cs).head?, c = '\n' ∨ c ∈ cs.head? := by
  cases cs using normalizeBreaks.induct with
  | case1 => exact fun _ hc => nomatch hc
  | case2 cs =>
    intro c hc
    exact .inl (Option.some.inj hc).symm
  | case3 d cs hpair =>
    rw [normalizeBreaks.eq_3 _ _ _ hpair]
    intro c hc
    obtain rfl := Option.some.inj hc
    split
    · exact .inl rfl
    · exact .inr rfl

/-- Both readers start an ordinary text alike, and its last line has an end. -/
theorem IsOrdinary.start_eq {text : String} (h : IsOrdinary text) {c : Cursor}
    (hstart : strictStart? text = some c) : Settings.start text = c ∧ EndsLine c.rest := by
  unfold strictStart? at hstart
  split at hstart
  · cases hstart
  rename_i hallowed
  have hnull : text.toList.takeWhile (·.toNat ≠ 0) = text.toList := by
    apply List.takeWhile_eq_self_iff.mpr
    intro d hd
    simp only [Bool.not_eq_true', Bool.not_eq_false, List.all_eq_true] at hallowed
    have hd' := hallowed d hd
    simp only [decide_eq_true_eq]
    intro hzero
    simp [isAllowed, hzero] at hd'
  have hsettings : Settings.start text = { rest := normalizeBreaks isNextLine text.toList } := by
    rw [Settings.start, hnull, normalizeBreaks_eq h.noNextLine]
  have hline := endsLine_normalizeBreaks isNextLine h.endsLine
  have hmark := head?_normalizeBreaks isNextLine text.toList
  rw [hsettings]
  generalize normalizeBreaks isNextLine text.toList = cs at hstart hline hmark
  cases cs with
  | nil =>
    obtain rfl := Option.some.inj hstart
    exact ⟨rfl, hline⟩
  | cons d cs =>
    have hd : d.toNat ≠ 0xFEFF := by
      cases hmark d rfl with
      | inl hbreak => rw [hbreak]; decide
      | inr hhead => exact h.noMark d hhead
    dsimp only at hstart
    rw [if_neg hd] at hstart
    obtain rfl := Option.some.inj hstart
    exact ⟨rfl, hline⟩

/-- The settings of an ordinary text that strict reading takes for a tabular node are the tree
    of that node. -/
theorem Settings.ofText?_eq {text : String} (htext : IsOrdinary text) {n : Node}
    (hread : readDocument strictDialect text = .ok (some n)) (hn : n.IsTabular)
    {entries : List (Value × Value)} :
    ofText? text = some entries ↔ treeOf n = some (.mapping entries) := by
  have hstart {c : Cursor} (hc : strictDialect.start? text = some c) :
      dialect.start? text = some c ∧ EndsLine c.rest := by
    obtain ⟨hsame, hline⟩ := htext.start_eq hc
    exact ⟨congrArg some hsame, hline⟩
  obtain ⟨c, hc, -⟩ := bind_eq_ok_iff.mp hread
  have hc' := orMalformed_eq_ok hc
  have hread' : readDocument dialect text = .ok (some n) :=
    extends_settings.readDocument extends_strict ((hstart hc').1.trans hc'.symm)
      (fun c hc => (hstart hc).2) hread (by rintro _ ⟨⟩; exact hn)
  unfold ofText?
  rw [hread']
  dsimp only
  split
  · rename_i entries' htree
    rw [htree]
    simp
  · rename_i hnone
    simp only [reduceCtorEq, false_iff]
    exact fun htree => hnone entries htree

end RunPlan
