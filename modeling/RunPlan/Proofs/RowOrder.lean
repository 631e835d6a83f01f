import RunPlan.Proofs.Assign
import RunPlan.Proofs.Shown

/-!
# The order of rows

Data that is the same but for the order of the rows of its records (`Value.Reordered`) shows
the same workflow. Changes at paths of which none is a part of another one come to such data
in any order.

What stands in a list is compared loosely: no field has a list or a table in a list, so that
it does not matter what is in one.

## Key results

- `Value.modify_comm`: changes at paths that are no part of each other come in any order
- `Workflow.ShownBy.of_reordered`: the order of rows does not matter for what data shows
-/

namespace RunPlan

namespace Value

/-! ## The order of rows -/

/-- Whether data is a list or a table. -/
def isNested : Value → Bool
  | sequence _ | mapping _ => true
  | _ => false

/-- Items of a list that are the same, or are a list or a table both. -/
inductive SameItem : Value → Value → Prop where
  | refl (v : Value) : SameItem v v
  | nested {v v' : Value} (h : v.isNested = true) (h' : v'.isNested = true) : SameItem v v'

theorem SameItem.symm {v v' : Value} (h : SameItem v v') : SameItem v' v := by
  cases h with
  | refl => exact .refl v
  | nested h h' => exact .nested h' h

theorem SameItem.trans {v v' v'' : Value} (h : SameItem v v') (h' : SameItem v' v'') :
    SameItem v v'' := by
  cases h with
  | refl => exact h'
  | nested hv hv' =>
    cases h' with
    | refl => exact .nested hv hv'
    | nested _ hv'' => exact .nested hv hv''

/-- Items that are the same one after the other, twice. -/
theorem SameItem.forall₂_trans {items items' items'' : List Value}
    (h : List.Forall₂ SameItem items items') (h' : List.Forall₂ SameItem items' items'') :
    List.Forall₂ SameItem items items'' := by
  induction h generalizing items'' with
  | nil => exact h'
  | cons hitem _ ih =>
    cases h' with
    | cons hitem' hitems' => exact .cons (hitem.trans hitem') (ih hitems')

/-- What is no list and no table is the same as itself only. -/
theorem SameItem.eq_of_leaf {v v' : Value} (h : SameItem v v') (hv : v.isNested = false) :
    v' = v := by
  cases h with
  | refl => rfl
  | nested hnested =>
    rw [hv] at hnested
    cases hnested

/-- Data that is the same but for the order of the rows of records, and for what is nested in
    lists. -/
inductive Reordered : Value → Value → Prop where
  | refl (v : Value) : Reordered v v
  | sequence {items items' : List Value} (h : List.Forall₂ SameItem items items') :
      Reordered (.sequence items) (.sequence items')
  | record {rows rows' : List (String × Value)}
      (names : (rows.map Prod.fst).Perm (rows'.map Prod.fst))
      (values : ∀ name v v', rows.lookup name = some v → rows'.lookup name = some v' →
        Reordered v v') : Reordered (.record rows) (.record rows')

/-- Rows that are the same but for the order. -/
structure SameRows (rows rows' : List (String × Value)) : Prop where
  names : (rows.map Prod.fst).Perm (rows'.map Prod.fst)
  values : ∀ name v v', rows.lookup name = some v → rows'.lookup name = some v' →
    Reordered v v'

variable {rows rows' : List (String × Value)} {root root' v v' : Value}

/-- Rows are the same as themselves. -/
theorem SameRows.refl (rows : List (String × Value)) : SameRows rows rows := by
  refine ⟨.refl _, fun name v v' hv hv' => ?_⟩
  obtain rfl : v = v' := Option.some.inj (hv.symm.trans hv')
  exact .refl v

/-- The row of a name on one side has a counterpart on the other. -/
theorem SameRows.exists_lookup (h : SameRows rows rows') {name : String}
    (hlookup : rows.lookup name = some v) :
    ∃ v', rows'.lookup name = some v' ∧ Reordered v v' := by
  cases hlookup' : rows'.lookup name with
  | none =>
    have hmem : name ∉ rows.map Prod.fst := by
      rw [h.names.mem_iff]
      exact Environment.lookup_eq_none_iff.mp hlookup'
    rw [Environment.lookup_eq_none_iff.mpr hmem] at hlookup
    cases hlookup
  | some v' => exact ⟨v', rfl, h.values name v v' hlookup hlookup'⟩

/-- A name is missing on one side when it is on the other. -/
theorem SameRows.lookup_eq_none (h : SameRows rows rows') {name : String}
    (hlookup : rows.lookup name = none) : rows'.lookup name = none := by
  rw [Environment.lookup_eq_none_iff] at hlookup ⊢
  rwa [← h.names.mem_iff]

/-- Reordering goes both ways. -/
theorem Reordered.symm (h : Reordered v v') : Reordered v' v := by
  induction h with
  | refl v => exact .refl v
  | sequence h => exact .sequence (h.flip.imp fun _ _ => SameItem.symm)
  | record names _ ih =>
    exact .record names.symm fun name v v' hv hv' => ih name v' v hv' hv

/-- Being the same but for the order goes both ways. -/
theorem SameRows.symm (h : SameRows rows rows') : SameRows rows' rows :=
  ⟨h.names.symm, fun name v v' hv hv' => (h.values name v' v hv' hv).symm⟩

/-- The rows of reordered data are the same but for the order. -/
theorem Reordered.sameRows (h : Reordered root root') : SameRows root.rows root'.rows := by
  cases h with
  | refl => exact .refl _
  | sequence => exact .refl []
  | record names values =>
    rw [rows_record, rows_record]
    exact ⟨names, values⟩

/-- A record is reordered to a record. -/
theorem Reordered.exists_record (h : Reordered (.record rows) v) :
    ∃ rows', v = .record rows' ∧ SameRows rows rows' := by
  generalize hroot : Value.record rows = root at h
  cases h with
  | refl => exact ⟨rows, hroot.symm, .refl rows⟩
  | sequence => cases hroot
  | @record first rows' names values =>
    have hrows := congrArg Value.rows hroot
    rw [rows_record, rows_record] at hrows
    subst hrows
    exact ⟨rows', rfl, names, values⟩

/-- A list is reordered to a list of the same items. -/
theorem Reordered.exists_sequence {items : List Value} (h : Reordered (.sequence items) v) :
    ∃ items', v = .sequence items' ∧ List.Forall₂ SameItem items items' := by
  cases h with
  | refl => exact ⟨items, rfl, List.forall₂_same.mpr fun v _ => .refl v⟩
  | @sequence _ items' h => exact ⟨items', rfl, h⟩

/-- The items of reordered data are the same. -/
theorem Reordered.listItems (h : Reordered root root') :
    List.Forall₂ SameItem (Settings.listItems root) (Settings.listItems root') := by
  cases h with
  | refl => exact List.forall₂_same.mpr fun v _ => .refl v
  | sequence h => exact h
  | record => exact .nil

/-- What is no list and no table is reordered to itself only. -/
theorem Reordered.eq_of_leaf (h : Reordered v v') (hv : v.isNested = false) : v' = v := by
  cases h with
  | refl => rfl
  | sequence => cases hv
  | record => cases hv

/-- Reordering twice is reordering. -/
theorem Reordered.trans {v'' : Value} (h : Reordered v v') (h' : Reordered v' v'') :
    Reordered v v'' := by
  induction h generalizing v'' with
  | refl v => exact h'
  | sequence h =>
    obtain ⟨items, rfl, hitems⟩ := h'.exists_sequence
    exact .sequence (SameItem.forall₂_trans h hitems)
  | @record rows rows' names values ih =>
    obtain ⟨rows'', rfl, hrows⟩ := h'.exists_record
    -- the rows in between are found by their names
    refine .record (names.trans hrows.names) fun name u u'' hu hu'' => ?_
    obtain ⟨u', hu', -⟩ := SameRows.exists_lookup ⟨names, values⟩ hu
    exact ih name u u' hu hu' (hrows.values name u' u'' hu' hu'')

/-- Setting a row keeps rows the same but for the order. -/
theorem SameRows.setRow (h : SameRows rows rows') (name : String) (hv : Reordered v v') :
    SameRows (setRow name v rows) (setRow name v' rows') := by
  refine ⟨?_, fun other u u' hu hu' => ?_⟩
  · by_cases hname : name ∈ rows.map Prod.fst
    · rw [map_fst_setRow_of_mem hname, map_fst_setRow_of_mem (h.names.mem_iff.mp hname)]
      exact h.names
    · rw [map_fst_setRow_of_notMem hname,
        map_fst_setRow_of_notMem (mt h.names.mem_iff.mpr hname)]
      exact h.names.append_right _
  · rw [lookup_setRow] at hu hu'
    split at hu
    · rename_i hother
      rw [if_pos hother] at hu'
      obtain rfl := Option.some.inj hu
      obtain rfl := Option.some.inj hu'
      exact hv
    · rename_i hother
      rw [if_neg hother] at hu'
      exact h.values other u u' hu hu'

/-- What stands under a name is the same but for the order of rows. -/
theorem SameRows.lookup (h : SameRows rows rows') (name : String) :
    Option.Rel Reordered (rows.lookup name) (rows'.lookup name) := by
  cases hlookup : rows.lookup name with
  | none =>
    rw [h.lookup_eq_none hlookup]
    exact .none
  | some v =>
    obtain ⟨v', hlookup', hv⟩ := h.exists_lookup hlookup
    rw [hlookup']
    exact .some hv

/-! ## Changes of reordered data -/

variable {f f' : Option Value → Value} {old old' : Option Value}

/-- Changes that come to the same on reordered data, but for the order of rows. -/
def SameChange (f f' : Option Value → Value) : Prop :=
  ∀ ⦃old old' : Option Value⦄, Option.Rel Reordered old old' → Reordered (f old) (f' old')

/-- A change that comes to the same as another one keeps data the same. -/
theorem SameChange.right (hf : SameChange f f') : SameChange f' f' := by
  intro old old' h
  have hself : Option.Rel Reordered old old := by
    cases old with
    | none => exact .none
    | some v => exact .some (.refl v)
  exact (hf hself).symm.trans (hf h)

/-- Changes at a path keep data the same but for the order of rows. -/
theorem SameChange.modify (hf : SameChange f f') (names : List String)
    (h : Option.Rel Reordered old old') :
    Reordered (modify f names old) (modify f' names old') := by
  induction names generalizing old old' with
  | nil => exact hf h
  | cons name names ih =>
    have hrows : SameRows (old.getD null).rows (old'.getD null).rows := by
      cases h with
      | none => exact .refl _
      | some h => exact h.sameRows
    have hset := hrows.setRow name (ih (hrows.lookup name))
    exact .record hset.names hset.values

/-- Setting a value at a path keeps data the same but for the order of rows. -/
theorem Reordered.assign (h : Reordered root root') (v : Value) (names : List String) :
    Reordered (assign v names root) (assign v names root') := by
  rw [assign_eq_modify, assign_eq_modify]
  exact SameChange.modify (fun _ _ _ => .refl v) names (.some h)

/-! ## Changes at several paths -/

/-- Rows of different names are set in any order. -/
private theorem sameRows_setRow_comm {name name' : String} (hne : name ≠ name') (v v' : Value)
    (rows : List (String × Value)) :
    SameRows (setRow name v (setRow name' v' rows)) (setRow name' v' (setRow name v rows)) := by
  refine ⟨?_, fun other u u' hu hu' => ?_⟩
  · have hmem {m m' : String} (h : m ≠ m') (v : Value) :
        m ∈ (setRow m' v rows).map Prod.fst ↔ m ∈ rows.map Prod.fst := by
      rw [mem_map_fst_setRow_iff, or_iff_right h]
    -- a row that is there keeps its place and a new one goes last; two new rows come in the
    -- order in which they were set
    by_cases hname : name ∈ rows.map Prod.fst
    · rw [map_fst_setRow_of_mem ((hmem hne v').mpr hname)]
      by_cases hname' : name' ∈ rows.map Prod.fst
      · rw [map_fst_setRow_of_mem ((hmem hne.symm v).mpr hname'), map_fst_setRow_of_mem hname',
          map_fst_setRow_of_mem hname]
      · rw [map_fst_setRow_of_notMem (mt (hmem hne.symm v).mp hname'),
          map_fst_setRow_of_notMem hname', map_fst_setRow_of_mem hname]
    · rw [map_fst_setRow_of_notMem (mt (hmem hne v').mp hname)]
      by_cases hname' : name' ∈ rows.map Prod.fst
      · rw [map_fst_setRow_of_mem ((hmem hne.symm v).mpr hname'), map_fst_setRow_of_mem hname',
          map_fst_setRow_of_notMem hname]
      · rw [map_fst_setRow_of_notMem (mt (hmem hne.symm v).mp hname'),
          map_fst_setRow_of_notMem hname', map_fst_setRow_of_notMem hname, List.append_assoc,
          List.append_assoc]
        exact (List.Perm.swap name name' []).append_left _
  · have hsame : u = u' := by
      rw [lookup_setRow, lookup_setRow] at hu hu'
      by_cases h : other = name
      · have h' : other ≠ name' := h ▸ hne
        simp only [if_pos h, if_neg h', Option.some.injEq] at hu hu'
        rw [← hu, ← hu']
      · simp only [if_neg h] at hu hu'
        rw [hu] at hu'
        exact Option.some.inj hu'
    rw [hsame]
    exact .refl u'

/-- Changes at paths that are no part of each other come in any order. -/
theorem modify_comm {names names' : List String} (h : ¬ names <+: names')
    (h' : ¬ names' <+: names) (f g : Option Value → Value) (old : Option Value) :
    Reordered (modify f names (some (modify g names' old)))
      (modify g names' (some (modify f names old))) := by
  -- as long as the paths agree, both changes are below the same row
  induction names generalizing names' old with
  | nil => exact absurd List.nil_prefix h
  | cons name names ih =>
    cases names' with
    | nil => exact absurd List.nil_prefix h'
    | cons name' names' =>
      simp only [modify, Option.getD_some, rows_record, lookup_setRow]
      generalize (old.getD null).rows = rows
      by_cases hname : name = name'
      · subst hname
        rw [List.prefix_cons_inj] at h h'
        simp only [if_true, setRow_setRow_self]
        have hset := (SameRows.refl rows).setRow name (ih h h' (rows.lookup name))
        exact .record hset.names hset.values
      · simp only [if_neg hname, if_neg (Ne.symm hname)]
        have hset := sameRows_setRow_comm hname (modify f names (rows.lookup name))
          (modify g names' (rows.lookup name')) rows
        exact .record hset.names hset.values

/-- Steps that keep data the same but for the order of rows do so one after the other. -/
theorem reordered_foldl {α : Type} {act : Value → α → Value} {l : List α}
    (hkeep : ∀ a ∈ l, ∀ root root', Reordered root root' → Reordered (act root a) (act root' a))
    (h : Reordered root root') : Reordered (l.foldl act root) (l.foldl act root') := by
  induction l generalizing root root' with
  | nil => exact h
  | cons a l ih =>
    rw [List.forall_mem_cons] at hkeep
    exact ih hkeep.2 (hkeep.1 root root' h)

/-- Steps of which any two come in any order come in any order all together. -/
theorem reordered_foldl_of_perm {α : Type} {act : Value → α → Value} {l l' : List α}
    (hperm : l.Perm l')
    (hkeep : ∀ a ∈ l, ∀ root root', Reordered root root' → Reordered (act root a) (act root' a))
    (hcomm : l.Pairwise fun a b => ∀ root,
      Reordered (act (act root a) b) (act (act root b) a)) (root : Value) :
    Reordered (l.foldl act root) (l'.foldl act root) := by
  induction hperm generalizing root with
  | nil => exact .refl root
  | cons a _ ih =>
    rw [List.forall_mem_cons] at hkeep
    exact ih hkeep.2 (List.pairwise_cons.mp hcomm).2 _
  | swap a b rest =>
    -- two neighbours are swapped; the rest is done to data that differs in order only
    have hba := (List.pairwise_cons.mp hcomm).1 a List.mem_cons_self root
    rw [List.forall_mem_cons, List.forall_mem_cons] at hkeep
    exact reordered_foldl hkeep.2.2 hba
  | trans hperm _ ih ih' =>
    have hsymm : ∀ {a b : α}, (∀ root, Reordered (act (act root a) b) (act (act root b) a)) →
        ∀ root, Reordered (act (act root b) a) (act (act root a) b) :=
      fun h root => (h root).symm
    exact (ih hkeep hcomm root).trans
      (ih' (fun a ha => hkeep a (hperm.mem_iff.mpr ha)) ((hperm.pairwise_iff hsymm).mp hcomm) root)

end Value

/-! ## What data shows in any order -/

open Value (Reordered SameRows)

/-- Whether data shows the same with its rows in any order. -/
def Shape.IgnoresOrder {β : Type} (shape : Shape β) : Prop :=
  ∀ ⦃v v' : Value⦄ ⦃b : β⦄, Reordered v v' → shape.shows v b → shape.shows v' b

/-- A shape that no list and no table has ignores the order of rows. -/
theorem Shape.ignoresOrder_of_leaf {β : Type} {shape : Shape β}
    (h : ∀ v b, shape.shows v b → v.isNested = false) : shape.IgnoresOrder := by
  intro v v' b hv hshown
  rwa [hv.eq_of_leaf (h v b hshown)]

/-- Only scalars have a text. -/
theorem Value.isNested_of_text? {v : Value} {text : String} (h : v.text? = some text) :
    v.isNested = false := by
  cases v with
  | sequence | mapping => cases h
  | _ => rfl

theorem ignoresOrder_textShape : textShape.IgnoresOrder :=
  Shape.ignoresOrder_of_leaf fun _ _ h => Value.isNested_of_text? h

theorem ignoresOrder_pathShape : pathShape.IgnoresOrder :=
  Shape.ignoresOrder_of_leaf fun _ _ h => Value.isNested_of_text? h

theorem ignoresOrder_countShape : countShape.IgnoresOrder := by
  refine Shape.ignoresOrder_of_leaf fun v n h => ?_
  obtain rfl : v = .ofUInt32 n := h
  rfl

theorem ignoresOrder_portShape : portShape.IgnoresOrder := by
  refine Shape.ignoresOrder_of_leaf fun v n h => ?_
  obtain rfl : v = .ofUInt16 n := h
  rfl

theorem ignoresOrder_numberShape : numberShape.IgnoresOrder := by
  refine Shape.ignoresOrder_of_leaf fun v x h => ?_
  obtain ⟨-, text, htext, -⟩ := h
  exact Value.isNested_of_text? htext

theorem ignoresOrder_nameShape {β : Type} (ofName? : String → Option β) (known : List String) :
    (nameShape ofName? known).IgnoresOrder := by
  refine Shape.ignoresOrder_of_leaf fun v b h => ?_
  obtain ⟨name, htext, -⟩ := h
  exact Value.isNested_of_text? htext

/-- The numbers of a list are the same items in any case. -/
theorem ignoresOrder_scheduleShape : scheduleShape.IgnoresOrder := by
  intro v v' s hv hshown
  obtain rfl : v = s.toValue := hshown
  cases s with
  | interval n => exact hv.eq_of_leaf rfl
  | episodes ns =>
    obtain ⟨items, rfl, hitems⟩ := hv.exists_sequence
    have hsame : items = ns.map .ofUInt32 := by
      clear hv
      generalize hns : ns.map Value.ofUInt32 = numbers at hitems
      induction hitems generalizing ns with
      | nil => rfl
      | @cons number item numbers items hitem hitems ih =>
        cases ns with
        | nil => cases hns
        | cons n ns =>
          rw [List.map_cons, List.cons.injEq] at hns
          rw [hitem.eq_of_leaf (by rw [← hns.1]; rfl), ih ns hns.2]
    exact congrArg Value.sequence hsame

/-- Absence has no rows. -/
theorem Shape.IgnoresOrder.optional {β : Type} {shape : Shape β} (h : shape.IgnoresOrder) :
    shape.optional.IgnoresOrder := by
  intro v v' o hv hshown
  cases o with
  | none =>
    obtain rfl : v = .null := hshown
    exact hv.eq_of_leaf rfl
  | some b =>
    refine ⟨?_, h hv hshown.2⟩
    rintro rfl
    exact hshown.1 (hv.symm.eq_of_leaf rfl)

variable {α : Type} {parts : List (Part α)} {rows rows' : List (String × Value)} {a b : α}

/-- The rows of a section show its parts in any order. -/
theorem ShowsParts.of_sameRows {required : List String} (h : ShowsParts parts required a rows b)
    (hparts : ∀ p ∈ parts, p.shape.IgnoresOrder) (hrows : SameRows rows rows') :
    ShowsParts parts required a rows' b := by
  refine ⟨⟨?_, nofun, fun row hrow => ?_⟩, fun name hname => ?_, fun p hp => ?_⟩
  · exact hrows.names.nodup_iff.mp h.names.distinct
  · obtain ⟨other, hother, hname⟩ :=
      List.mem_map.mp (hrows.names.mem_iff.mpr (List.mem_map_of_mem hrow))
    rw [← hname]
    exact h.names.known other hother
  · exact hrows.names.mem_iff.mp (h.required hname)
  · have hshown := h.shown p hp
    unfold Part.Shown at hshown ⊢
    cases hlookup : rows.lookup p.name with
    | none => rwa [hrows.lookup_eq_none hlookup, ← hlookup]
    | some v =>
      rw [hlookup] at hshown
      obtain ⟨v', hlookup', hv⟩ := hrows.exists_lookup hlookup
      rw [hlookup']
      exact hparts p hp hv hshown

/-- A section shows its parts in any order. -/
theorem ignoresOrder_ofParts {title : String} {required : List String}
    {hpartition : IsPartition parts} (hparts : ∀ p ∈ parts, p.shape.IgnoresOrder) :
    (Shape.ofParts title required a hpartition).IgnoresOrder := by
  rintro v v' b hv ⟨rows, rfl, hshown⟩
  obtain ⟨rows', rfl, hrows⟩ := hv.exists_record
  exact ⟨rows', rfl, hshown.of_sameRows hparts hrows⟩

theorem ignoresOrder_loggingShape : loggingShape.IgnoresOrder := by
  refine ignoresOrder_ofParts ?_
  simp only [loggingParts, List.forall_mem_cons]
  exact ⟨ignoresOrder_nameShape .., ignoresOrder_nameShape .., List.forall_mem_nil _⟩

theorem ignoresOrder_mainShape : mainShape.IgnoresOrder := by
  refine ignoresOrder_ofParts ?_
  simp only [mainParts, List.forall_mem_cons]
  exact ⟨ignoresOrder_countShape.optional, ignoresOrder_countShape.optional,
    ignoresOrder_scheduleShape.optional, ignoresOrder_loggingShape, List.forall_mem_nil _⟩

theorem ignoresOrder_controllerShape : controllerShape.IgnoresOrder := by
  refine ignoresOrder_ofParts ?_
  simp only [controllerParts, List.forall_mem_cons]
  exact ⟨ignoresOrder_textShape, ignoresOrder_portShape, List.forall_mem_nil _⟩

theorem ignoresOrder_parallelismShape : parallelismShape.IgnoresOrder := by
  refine ignoresOrder_ofParts ?_
  simp only [parallelismParts, List.forall_mem_cons]
  exact ⟨ignoresOrder_countShape, ignoresOrder_countShape.optional,
    ignoresOrder_countShape.optional, ignoresOrder_numberShape.optional,
    ignoresOrder_controllerShape.optional, List.forall_mem_nil _⟩

theorem ignoresOrder_rolloutShape : rolloutShape.IgnoresOrder := by
  refine ignoresOrder_ofParts ?_
  simp only [rolloutParts, List.forall_mem_cons]
  exact ⟨ignoresOrder_parallelismShape.optional, ignoresOrder_loggingShape,
    List.forall_mem_nil _⟩

theorem ignoresOrder_checkpointingShape : checkpointingShape.IgnoresOrder := by
  refine ignoresOrder_ofParts ?_
  simp only [checkpointingParts, List.forall_mem_cons]
  exact ⟨ignoresOrder_pathShape, ignoresOrder_countShape, List.forall_mem_nil _⟩

theorem ignoresOrder_proxyShape : proxyShape.IgnoresOrder := by
  refine ignoresOrder_ofParts ?_
  simp only [proxyParts, List.forall_mem_cons]
  exact ⟨ignoresOrder_textShape, ignoresOrder_portShape, ignoresOrder_portShape,
    List.forall_mem_nil _⟩

theorem ignoresOrder_trainingShape : trainingShape.IgnoresOrder := by
  refine ignoresOrder_ofParts ?_
  simp only [trainingParts, List.forall_mem_cons]
  exact ⟨ignoresOrder_nameShape .., ignoresOrder_pathShape.optional,
    ignoresOrder_countShape.optional, ignoresOrder_checkpointingShape.optional,
    ignoresOrder_proxyShape.optional, ignoresOrder_countShape.optional,
    ignoresOrder_loggingShape, List.forall_mem_nil _⟩

/-- The parts of a document ignore the order of rows. -/
theorem ignoresOrder_workflowParts : ∀ p ∈ workflowParts, p.shape.IgnoresOrder := by
  simp only [workflowParts, List.forall_mem_cons]
  exact ⟨ignoresOrder_textShape, ignoresOrder_pathShape, ignoresOrder_pathShape,
    ignoresOrder_mainShape, ignoresOrder_rolloutShape, ignoresOrder_trainingShape,
    List.forall_mem_nil _⟩

/-- The order of rows does not matter for the workflow that data shows. -/
theorem Workflow.ShownBy.of_reordered {w : Workflow} {v v' : Value} (h : w.ShownBy v)
    (hv : Reordered v v') : w.ShownBy v' := by
  obtain ⟨rows, rfl, hrequired, hshown⟩ := h
  obtain ⟨rows', rfl, hrows⟩ := hv.exists_record
  refine ⟨rows', rfl, fun name hname hnull => ?_,
    hshown.of_sameRows ignoresOrder_workflowParts hrows⟩
  obtain ⟨v, hlookup, hv⟩ := hrows.symm.exists_lookup hnull
  obtain rfl : v = .null := hv.eq_of_leaf rfl
  exact hrequired name hname hlookup

end RunPlan
