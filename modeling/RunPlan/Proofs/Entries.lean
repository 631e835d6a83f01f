import RunPlan.Proofs.Shown

/-!
# Entries of sections

What is read from the entries of a section, in the order in which they stand there, whatever
nodes they are: each entry is taken by the part that its key names (`decodeEntries_cons_iff`),
no part is named twice, and what is not named stays as it was.

## Key results

- `exists_names_of_decodeEntries`, `mem_names_of_decodeEntries`: the names that entries add
- `get_eq_of_decodeEntries`: parts that are not named
- `exists_part_of_decodeEntries`: what each entry is decoded to
- `decodeSection_entry_iff`: a section with an entry in the middle
-/

namespace RunPlan

open Yaml

/-! ## Lists of pairs -/

/-- What is on the right of a list of pairs has something on the left. -/
theorem exists_mem_of_forall₂ {α β : Type*} {R : α → β → Prop} {as : List α} {bs : List β}
    (h : List.Forall₂ R as bs) : ∀ b ∈ bs, ∃ a ∈ as, R a b := by
  induction h with
  | nil => exact List.forall_mem_nil _
  | cons hfirst _ ih =>
    rw [List.forall_mem_cons]
    refine ⟨⟨_, List.mem_cons_self, hfirst⟩, fun b hb => ?_⟩
    obtain ⟨a, ha, hab⟩ := ih b hb
    exact ⟨a, List.mem_cons_of_mem _ ha, hab⟩

/-- There is a list on the right when there is something for each on the left. -/
theorem exists_forall₂ {α β : Type*} {R : α → β → Prop} {as : List α}
    (h : ∀ a ∈ as, ∃ b, R a b) : ∃ bs, List.Forall₂ R as bs := by
  induction as with
  | nil => exact ⟨[], .nil⟩
  | cons a as ih =>
    rw [List.forall_mem_cons] at h
    obtain ⟨b, hb⟩ := h.1
    obtain ⟨bs, hbs⟩ := ih h.2
    exact ⟨b :: bs, .cons hb hbs⟩

/-! ## Keys -/

/-- A key that writes a name. -/
def Yaml.Node.Names (key : Node) (name : String) : Prop :=
  ∃ tag plain, key.target = .scalar tag plain name

/-- A key writes one name only. -/
theorem Yaml.Node.Names.unique {key : Node} {name name' : String} (h : key.Names name)
    (h' : key.Names name') : name = name' := by
  obtain ⟨tag, plain, hname⟩ := h
  obtain ⟨tag', plain', hname'⟩ := h'
  rw [hname] at hname'
  cases hname'
  rfl

/-- A key that is taken for the name of a field writes that name. -/
theorem fieldName_eq_ok_iff {path : NodePath} {key : Node} {name : String} :
    fieldName path key = .ok name ↔ key.Names name := by
  unfold fieldName Node.Names
  cases key.target with
  | scalar tag plain text => simp
  | sequence => simp [wrongType]
  | mapping => simp [wrongType]
  | reference => simp [wrongType]

/-! ## Entries -/

variable {α β : Type} {parts : List (Part α)} {path : NodePath} {seen : List String} {a : α}

/-- Entries are taken one after the other. -/
theorem decodeEntries_append (fields : List (Field α)) (path : NodePath) (seen : List String)
    (a : α) (es fs : List (Node × Node)) :
    decodeEntries fields path seen a (es ++ fs) =
      decodeEntries fields path seen a es >>= fun r => decodeEntries fields path r.1 r.2 fs := by
  induction es generalizing seen a with
  | nil => rfl
  | cons e es ih =>
    obtain ⟨key, n⟩ := e
    rw [List.cons_append, decodeEntries, decodeEntries]
    -- where the first entry fails, both sides fail alike
    cases fieldName path key with
    | error => rfl
    | ok name =>
      simp only [bind, Except.bind]
      cases fields.find? (·.name == name) with
      | none => rfl
      | some field =>
        by_cases hseen : seen.contains name = true
        · simp only [hseen, if_true]
        · simp only [hseen, if_false, Bool.false_eq_true]
          cases field.read (key.step :: path) n a with
          | error => rfl
          | ok a => exact ih (name :: seen) a

/-- A part is found under its name. -/
private theorem find?_name_iff (hparts : IsPartition parts) {name : String} {p : Part α} :
    parts.find? (·.name == name) = some p ↔ p ∈ parts ∧ p.name = name := by
  constructor
  · intro h
    exact ⟨List.mem_of_find?_eq_some h, by simpa using List.find?_some h⟩
  · intro ⟨hp, hname⟩
    cases hfind : parts.find? (·.name == name) with
    | none => exact absurd (beq_iff_eq.mpr hname) (List.find?_eq_none.mp hfind p hp)
    | some q =>
      have hq : q.name = name := by simpa using List.find?_some hfind
      rw [List.inj_on_of_nodup_map hparts.distinct (List.mem_of_find?_eq_some hfind) hp
        (hq.trans hname.symm)]

/-- The first entry is taken by the part that its key names, which must be new. -/
theorem decodeEntries_cons_iff (hparts : IsPartition parts) {key n : Node}
    {rest : List (Node × Node)} {r : List String × α} :
    decodeEntries (parts.map Part.field) path seen a ((key, n) :: rest) = .ok r ↔
      ∃ p ∈ parts, key.Names p.name ∧ p.name ∉ seen ∧
        ∃ x, p.shape.decode (key.step :: path) n = .ok x ∧
          decodeEntries (parts.map Part.field) path (p.name :: seen) (p.store a x) rest =
            .ok r := by
  have hfind (name : String) : (parts.map Part.field).find? (·.name == name) =
      (parts.find? (·.name == name)).map Part.field := List.find?_map ..
  rw [decodeEntries, bind_eq_ok_iff]
  constructor
  · intro h
    obtain ⟨name, hname, hread⟩ := h
    rw [hfind] at hread
    cases hpart : parts.find? (·.name == name) with
    | none =>
      rw [hpart] at hread
      cases hread
    | some p =>
      obtain ⟨hp, rfl⟩ := (find?_name_iff hparts).mp hpart
      rw [hpart] at hread
      simp only [Option.map_some] at hread
      split at hread
      · cases hread
      · rename_i hnew
        obtain ⟨a', ha', hrest⟩ := bind_eq_ok_iff.mp hread
        obtain ⟨x, hx, rfl⟩ := map_eq_ok_iff.mp ha'
        exact ⟨p, hp, fieldName_eq_ok_iff.mp hname, by simpa using hnew, x, hx, hrest⟩
  · intro h
    obtain ⟨p, hp, hkey, hnew, x, hx, hrest⟩ := h
    refine ⟨p.name, fieldName_eq_ok_iff.mpr hkey, ?_⟩
    rw [hfind, (find?_name_iff hparts).mpr ⟨hp, rfl⟩]
    simp only [Option.map_some, List.contains_eq_mem, hnew, decide_false, Bool.false_eq_true,
      if_false]
    exact bind_eq_ok_iff.mpr ⟨p.store a x, map_eq_ok_iff.mpr ⟨x, hx, rfl⟩, hrest⟩

/-- The names of entries go on top of those seen before, none of which they repeat. Fewer
    names seen before make no difference to them. -/
theorem exists_names_of_decodeEntries (hparts : IsPartition parts)
    {entries : List (Node × Node)} {names : List String} {b : α}
    (h : decodeEntries (parts.map Part.field) path seen a entries = .ok (names, b)) :
    ∃ new, names = new ++ seen ∧ (∀ name ∈ new, name ∉ seen) ∧
      ∀ seen' ⊆ seen, decodeEntries (parts.map Part.field) path seen' a entries =
        .ok (new ++ seen', b) := by
  induction entries generalizing seen a with
  | nil =>
    cases h
    exact ⟨[], rfl, List.forall_mem_nil _, fun seen' _ => rfl⟩
  | cons e rest ih =>
    obtain ⟨p, hp, hkey, hnew, x, hx, hrest⟩ := (decodeEntries_cons_iff hparts).mp h
    obtain ⟨new, rfl, hfresh, hless⟩ := ih hrest
    -- the last name seen comes first, so this entry has the last of the new names
    refine ⟨new ++ [p.name], by simp, ?_, fun seen' hseen' => ?_⟩
    · intro name hname
      cases List.mem_append.mp hname with
      | inl hname => exact fun hmem => hfresh name hname (List.mem_cons_of_mem _ hmem)
      | inr hname =>
        rw [List.mem_singleton.mp hname]
        exact hnew
    · apply (decodeEntries_cons_iff hparts).mpr
      refine ⟨p, hp, hkey, fun hmem => hnew (hseen' hmem), x, hx, ?_⟩
      rw [hless _ (List.cons_subset_cons p.name hseen'), List.append_assoc]
      rfl

/-- The names of entries do not depend on what they are stored in. -/
theorem names_unique (hparts : IsPartition parts) {entries : List (Node × Node)} {a' b b' : α}
    {names names' : List String}
    (h : decodeEntries (parts.map Part.field) path seen a entries = .ok (names, b))
    (h' : decodeEntries (parts.map Part.field) path seen a' entries = .ok (names', b')) :
    names = names' := by
  induction entries generalizing seen a a' with
  | nil =>
    cases h
    cases h'
    rfl
  | cons e rest ih =>
    obtain ⟨p, -, hp, -, x, -, hrest⟩ := (decodeEntries_cons_iff hparts).mp h
    obtain ⟨q, -, hq, -, y, -, hrest'⟩ := (decodeEntries_cons_iff hparts).mp h'
    -- one key names one part
    rw [hp.unique hq] at hrest
    exact ih hrest hrest'

/-- A part that no entry names stays what it was. -/
theorem get_eq_of_decodeEntries (hparts : IsPartition parts) {entries : List (Node × Node)}
    {names : List String} {b : α} {p : Part α} (hp : p ∈ parts)
    (h : decodeEntries (parts.map Part.field) path seen a entries = .ok (names, b))
    (hname : p.name ∉ names) : p.get b = p.get a := by
  induction entries generalizing seen a with
  | nil =>
    cases h
    rfl
  | cons e rest ih =>
    obtain ⟨q, hq, -, -, x, -, hrest⟩ := (decodeEntries_cons_iff hparts).mp h
    obtain ⟨new, rfl, -, -⟩ := exists_names_of_decodeEntries hparts hrest
    -- the first entry is for another part
    have hne : q.name ≠ p.name := by
      intro hqp
      exact hname (by simp [hqp])
    rw [ih hrest, hparts.apart q hq p hp hne]

/-- Storing what a part is already changes nothing. -/
theorem store_get_eq (hparts : IsPartition parts) {p : Part α} (hp : p ∈ parts) (a : α) :
    p.store a (p.get a) = a := by
  apply hparts.ext
  intro q hq
  by_cases hname : p.name = q.name
  · obtain rfl : p = q := List.inj_on_of_nodup_map hparts.distinct hp hq hname
    exact p.get_store a (p.get a)
  · exact hparts.apart p hp q hq hname a (p.get a)

/-- What entries name has been seen when they are decoded. -/
theorem mem_names_of_decodeEntries (hparts : IsPartition parts) {entries : List (Node × Node)}
    {names : List String} {b : α}
    (h : decodeEntries (parts.map Part.field) path seen a entries = .ok (names, b))
    {e : Node × Node} (he : e ∈ entries) {name : String} (hname : e.1.Names name) :
    name ∈ names := by
  induction entries generalizing seen a with
  | nil => cases he
  | cons d rest ih =>
    obtain ⟨p, hp, hkey, -, x, -, hrest⟩ := (decodeEntries_cons_iff hparts).mp h
    cases List.mem_cons.mp he with
    | inl hd =>
      obtain ⟨new, rfl, -⟩ := exists_names_of_decodeEntries hparts hrest
      rw [hd] at hname
      rw [hname.unique hkey]
      exact List.mem_append_right new List.mem_cons_self
    | inr hmem => exact ih hrest hmem

/-- Names that entries find seen are not among those that they add. -/
private theorem notMem_of_decodeEntries (hparts : IsPartition parts)
    {entries : List (Node × Node)} {names : List String} {b : α} {name : String}
    (h : decodeEntries (parts.map Part.field) path (name :: seen) a entries = .ok (names, b)) :
    ∃ new, decodeEntries (parts.map Part.field) path [] a entries = .ok (new, b) ∧ name ∉ new := by
  obtain ⟨new, -, hfresh, hless⟩ := exists_names_of_decodeEntries hparts h
  refine ⟨new, ?_, fun hmem => hfresh name hmem List.mem_cons_self⟩
  rw [hless [] (List.nil_subset _), List.append_nil]

/-- Each entry is decoded to what its part is in the end. -/
theorem exists_part_of_decodeEntries (hparts : IsPartition parts)
    {entries : List (Node × Node)} {names : List String} {b : α}
    (h : decodeEntries (parts.map Part.field) path seen a entries = .ok (names, b)) :
    ∀ entry ∈ entries, ∃ p ∈ parts, entry.1.Names p.name ∧
      p.shape.decode (entry.1.step :: path) entry.2 = .ok (p.get b) := by
  induction entries generalizing seen a with
  | nil => exact List.forall_mem_nil _
  | cons entry rest ih =>
    obtain ⟨p, hp, hname, -, x, hx, hrest⟩ := (decodeEntries_cons_iff hparts).mp h
    rw [List.forall_mem_cons]
    refine ⟨⟨p, hp, hname, ?_⟩, ih hrest⟩
    -- no later entry is for the same part
    obtain ⟨new, hnew, hnotMem⟩ := notMem_of_decodeEntries hparts hrest
    rw [get_eq_of_decodeEntries hparts hp hnew hnotMem, p.get_store]
    exact hx

/-- What an entry is decoded to is the part that its key names. -/
theorem decode_of_decodeEntries (hparts : IsPartition parts)
    {entries : List (Node × Node)} {names : List String} {b : α}
    (h : decodeEntries (parts.map Part.field) path seen a entries = .ok (names, b))
    {entry : Node × Node} (hentry : entry ∈ entries) {p : Part α} (hp : p ∈ parts)
    (hname : entry.1.Names p.name) :
    p.shape.decode (entry.1.step :: path) entry.2 = .ok (p.get b) := by
  obtain ⟨q, hq, hqname, hread⟩ := exists_part_of_decodeEntries hparts h entry hentry
  obtain rfl : p = q :=
    List.inj_on_of_nodup_map hparts.distinct hp hq (hname.unique hqname)
  exact hread

/-- No two entries that are decoded write the same name. -/
theorem pairwise_of_decodeEntries (hparts : IsPartition parts)
    {entries : List (Node × Node)} {names : List String} {b : α}
    (h : decodeEntries (parts.map Part.field) path seen a entries = .ok (names, b)) :
    entries.Pairwise fun e f => ∀ name, e.1.Names name → ¬ f.1.Names name := by
  induction entries generalizing seen a with
  | nil => exact .nil
  | cons entry rest ih =>
    obtain ⟨p, -, hname, -, x, -, hrest⟩ := (decodeEntries_cons_iff hparts).mp h
    refine .cons (fun f hf name hentry hlater => ?_) (ih hrest)
    obtain ⟨new, hnew, hnotMem⟩ := notMem_of_decodeEntries hparts hrest
    rw [hname.unique hentry] at hnotMem
    exact hnotMem (mem_names_of_decodeEntries hparts hnew hf hlater)

/-- A name that has been seen after entries is written by one of them, or was seen before. -/
theorem exists_entry_of_mem_names (hparts : IsPartition parts)
    {entries : List (Node × Node)} {names : List String} {b : α}
    (h : decodeEntries (parts.map Part.field) path seen a entries = .ok (names, b)) :
    ∀ name ∈ names, name ∈ seen ∨ ∃ entry ∈ entries, entry.1.Names name := by
  induction entries generalizing seen a with
  | nil =>
    cases h
    exact fun name hname => .inl hname
  | cons entry rest ih =>
    obtain ⟨p, -, hkey, -, x, -, hrest⟩ := (decodeEntries_cons_iff hparts).mp h
    intro name hname
    rcases ih hrest name hname with hseen | ⟨f, hf, hlater⟩
    · cases List.mem_cons.mp hseen with
      | inl hfirst => exact .inr ⟨entry, List.mem_cons_self, hfirst ▸ hkey⟩
      | inr hbefore => exact .inl hbefore
    · exact .inr ⟨f, List.mem_cons_of_mem _ hf, hlater⟩

section

variable {title : String} {required : List String} {start b : α} {tag : Option String}
  {before after : List (Node × Node)} {key n : Node} {name : String}

/-- A section is decoded from a mapping when its entries are, in two parts here, and none is
    missing. -/
theorem decodeSection_append_iff {fields : List (Field α)} :
    decodeSection title fields required start path (.mapping tag (before ++ after)) = .ok b ↔
      ∃ seen a, decodeEntries fields path [] start before = .ok (seen, a) ∧
        ∃ names, decodeEntries fields path seen a after = .ok (names, b) ∧ required ⊆ names := by
  have hall (names : List String) :
      required.find? (!names.contains ·) = none ↔ required ⊆ names := by
    rw [List.find?_eq_none]
    simp [List.subset_def]
  show (decodeEntries fields path [] start (before ++ after) >>= _) = .ok b ↔ _
  rw [decodeEntries_append, bind_eq_ok_iff]
  constructor
  · intro h
    obtain ⟨⟨names, c⟩, hread, hmissing⟩ := h
    obtain ⟨⟨seen, a⟩, hbefore, hafter⟩ := bind_eq_ok_iff.mp hread
    dsimp only at hmissing
    split at hmissing
    · cases hmissing
    · rename_i hnone
      cases hmissing
      exact ⟨seen, a, hbefore, names, hafter, (hall names).mp hnone⟩
  · intro h
    obtain ⟨seen, a, hbefore, names, hafter, hrequired⟩ := h
    refine ⟨(names, b), bind_eq_ok_iff.mpr ⟨(seen, a), hbefore, hafter⟩, ?_⟩
    simp only [(hall names).mpr hrequired]

/-- A section is decoded from a mapping when the part that an entry names is decoded from its
    value, and the rest from what stands before and after it. -/
theorem decodeSection_entry_iff (hparts : IsPartition parts) (hkey : key.Names name) :
    decodeSection title (parts.map Part.field) required start path
        (.mapping tag (before ++ (key, n) :: after)) = .ok b ↔
      ∃ seen a, decodeEntries (parts.map Part.field) path [] start before = .ok (seen, a) ∧
        ∃ p ∈ parts, p.name = name ∧ name ∉ seen ∧
          ∃ x, p.shape.decode (key.step :: path) n = .ok x ∧
            ∃ names, decodeEntries (parts.map Part.field) path (name :: seen) (p.store a x)
              after = .ok (names, b) ∧ required ⊆ names := by
  rw [decodeSection_append_iff]
  constructor
  · intro h
    obtain ⟨seen, a, hbefore, names, hentry, hrequired⟩ := h
    obtain ⟨p, hp, hpkey, hnew, x, hx, hafter⟩ := (decodeEntries_cons_iff hparts).mp hentry
    obtain rfl := hpkey.unique hkey
    exact ⟨seen, a, hbefore, p, hp, rfl, hnew, x, hx, names, hafter, hrequired⟩
  · rintro ⟨seen, a, hbefore, p, hp, rfl, hnew, x, hx, names, hafter, hrequired⟩
    exact ⟨seen, a, hbefore, names,
      (decodeEntries_cons_iff hparts).mpr ⟨p, hp, hkey, hnew, x, hx, hafter⟩, hrequired⟩

end

end RunPlan
