import RunPlan.Proofs.Shown

/-!
# Changing what data shows

Setting a value in data that shows a workflow makes it show another one: the same but for
the field at that path. A change of a part is a change of the section it is in
(`Shape.Changes.part`), so that the change of a field is followed up to the whole workflow.
The sections on the way may be missing where their defaults are meant.

## Key results

- `ShowsParts.assign`: setting a value below a row of a section replaces that part only
- `Workflow.ShownBy.assign`: data with a value set shows the changed workflow
-/

namespace RunPlan

open Value (assign setRow)

variable {α β : Type} {parts : List (Part α)} {names : List String} {v : Value}

/-! ## Changes -/

/-- Setting the value at a path of names makes data that shows one thing show another. -/
def Shape.Changes (shape : Shape β) (names : List String) (v : Value) (a b : β) : Prop :=
  ∀ old, shape.shows old a → shape.shows (assign v names old) b

/-- Where nothing stands, a change starts from nothing, if that is shown by an empty
    record. -/
theorem Shape.Changes.shows_assign_null {shape : Shape β} {a b : β}
    (h : shape.Changes names v a b) (hne : names ≠ [])
    (hempty : shape.shows (.record []) a) : shape.shows (assign v names .null) b := by
  rw [Value.assign_null v hne]
  exact h _ hempty

/-- A change of a value that is there. -/
theorem Shape.Changes.some {shape : Shape β} {a b : β} (h : shape.Changes names v a b)
    (hv : v ≠ .null) : shape.optional.Changes names v (some a) (some b) :=
  fun old hold => ⟨Value.assign_ne_null hv names old, h old hold.2⟩

/-- Setting a value below a row of a section changes the part of that row. Where there is no
    such row, the part was what the section starts from. -/
theorem ShowsParts.assign {required : List String} {start a : α}
    {rows : List (String × Value)} (hrows : ShowsParts parts required start rows a)
    (hparts : IsPartition parts) {p : Part α} (hp : p ∈ parts) {x : p.β}
    (h : p.shape.Changes names v (p.get a) x)
    (hnew : p.get a = p.get start → p.shape.shows (assign v names .null) x) :
    ShowsParts parts required start
      (setRow p.name (assign v names ((rows.lookup p.name).getD .null)) rows) (p.store a x) := by
  refine ⟨⟨?_, nofun, ?_⟩, ?_, ?_⟩
  · exact Value.nodup_map_fst_setRow hrows.names.distinct _ _
  · intro row hrow
    have hname := List.mem_map_of_mem (f := Prod.fst) hrow
    rcases Value.mem_map_fst_setRow_iff.mp hname with hname | hname
    · rw [hname]
      exact List.mem_map_of_mem hp
    · obtain ⟨other, hother, hsame⟩ := List.mem_map.mp hname
      rw [← hsame]
      exact hrows.names.known other hother
  · intro name hname
    exact Value.mem_map_fst_setRow_iff.mpr (Or.inr (hrows.required hname))
  · intro q hq
    have hshown := hrows.shown q hq
    rw [Part.Shown, Value.lookup_setRow]
    -- the row that was set shows the change, all other parts are shown as before
    by_cases hname : q.name = p.name
    · obtain rfl : q = p := List.inj_on_of_nodup_map hparts.distinct hq hp hname
      rw [if_pos rfl, q.get_store]
      rw [Part.Shown] at hshown
      cases hlookup : rows.lookup q.name with
      | none =>
        rw [hlookup] at hshown
        exact hnew hshown
      | some old =>
        rw [hlookup] at hshown
        exact h old hshown
    · rw [if_neg hname]
      rw [Part.Shown] at hshown
      rwa [hparts.apart p hp q hq (Ne.symm hname)]

/-- A part of a section changes with what is set below its name. -/
theorem Shape.Changes.part {title : String} {required : List String} {start a : α}
    {hparts : IsPartition parts} {p : Part α} (hp : p ∈ parts) {x : p.β}
    (h : p.shape.Changes names v (p.get a) x)
    (hnew : p.get a = p.get start → p.shape.shows (assign v names .null) x) :
    (Shape.ofParts title required start hparts).Changes (p.name :: names) v a (p.store a x) := by
  rintro old ⟨rows, rfl, hrows⟩
  refine ⟨_, ?_, hrows.assign hparts hp h hnew⟩
  rw [Value.assign, Value.rows_record]

/-- A field of a section changes to what is set under its name. -/
theorem Shape.Changes.field {title : String} {required : List String} {start a : α}
    {hparts : IsPartition parts} {p : Part α} (hp : p ∈ parts) {x : p.β}
    (h : p.shape.shows v x) :
    (Shape.ofParts title required start hparts).Changes [p.name] v a (p.store a x) :=
  .part hp (fun _ _ => h) fun _ => h

/-- A section without required fields in another section changes with what is set in it,
    whether or not it is there. -/
theorem Shape.Changes.subsection {title : String} {required : List String} {start a : α}
    {hparts : IsPartition parts} {p : Part α} (hp : p ∈ parts) (hne : names ≠ [])
    (hempty : p.shape.shows (.record []) (p.get start)) {x : p.β}
    (h : p.shape.Changes names v (p.get a) x) :
    (Shape.ofParts title required start hparts).Changes (p.name :: names) v a (p.store a x) :=
  .part hp h fun hsame => h.shows_assign_null hne (hsame ▸ hempty)

/-- An optional section that is there changes with what is set in it. -/
theorem Shape.Changes.optionalSection {title : String} {required : List String} {start a : α}
    {hparts : IsPartition parts} {name : String} {shape : Shape β} {get : α → Option β}
    {store : α → Option β → α} {hlaw : ∀ a b, get (store a b) = b}
    (hp : (⟨_, name, shape.optional, get, store, hlaw⟩ : Part α) ∈ parts)
    (hstart : get start = none) {b b' : β} (hget : get a = .some b) (hv : v ≠ .null)
    (h : shape.Changes names v b b') :
    (Shape.ofParts title required start hparts).Changes (name :: names) v a
      (store a (.some b')) := by
  refine .part hp (x := .some b') ?_ ?_
  · change shape.optional.Changes names v (get a) (.some b')
    rw [hget]
    exact h.some hv
  · -- the section does not start with it, so that there is a row for it
    intro hsame
    change get a = get start at hsame
    rw [hget, hstart] at hsame
    cases hsame

/-- A section without required fields is shown by an empty record when it is what it starts
    from. -/
theorem Shape.shows_empty (title : String) (start : α) (hparts : IsPartition parts) :
    (Shape.ofParts title [] start hparts).shows (.record []) start :=
  ⟨[], rfl, ⟨List.nodup_nil, nofun, nofun⟩, List.nil_subset _, fun _ _ => rfl⟩

/-! ## Changes of a workflow -/

variable {w : Workflow}

/-- A change in the `main` section. -/
theorem changes_main (hne : names ≠ []) {m : MainSection}
    (h : mainShape.Changes names v w.main m) :
    workflowShape.Changes ("main" :: names) v w { w with main := m } := by
  have hempty : mainShape.shows (.record []) {} := Shape.shows_empty ..
  have hpart : workflowParts[3] ∈ workflowParts := List.getElem_mem _
  unfold workflowShape
  refine .subsection hpart hne ?_ h
  exact hempty

/-- A change in the `rollout` section. -/
theorem changes_rollout (hne : names ≠ []) {r : RolloutSection}
    (h : rolloutShape.Changes names v w.rollout r) :
    workflowShape.Changes ("rollout" :: names) v w { w with rollout := r } := by
  have hempty : rolloutShape.shows (.record []) {} := Shape.shows_empty ..
  have hpart : workflowParts[4] ∈ workflowParts := List.getElem_mem _
  unfold workflowShape
  refine .subsection hpart hne ?_ h
  exact hempty

/-- A change in the `training` section. -/
theorem changes_training (hne : names ≠ []) {t : TrainingSection}
    (h : trainingShape.Changes names v w.training t) :
    workflowShape.Changes ("training" :: names) v w { w with training := t } := by
  have hempty : trainingShape.shows (.record []) {} := Shape.shows_empty ..
  have hpart : workflowParts[5] ∈ workflowParts := List.getElem_mem _
  unfold workflowShape
  refine .subsection hpart hne ?_ h
  exact hempty

/-- A change in `rollout.parallelism`. -/
theorem changes_parallelism (hv : v ≠ .null) {p p' : Parallelism}
    (hp : w.rollout.parallelism = some p) (h : parallelismShape.Changes names v p p') :
    workflowShape.Changes ("rollout" :: "parallelism" :: names) v w
      { w with rollout.parallelism := some p' } := by
  have hpart : rolloutParts[0] ∈ rolloutParts := List.getElem_mem _
  refine changes_rollout (List.cons_ne_nil _ _) ?_
  unfold rolloutShape
  exact .optionalSection hpart rfl hp hv h

/-- A change in `rollout.parallelism.controller`. -/
theorem changes_controller (hv : v ≠ .null) {p : Parallelism} {c c' : Controller}
    (hp : w.rollout.parallelism = some p) (hc : p.controller = some c)
    (h : controllerShape.Changes names v c c') :
    workflowShape.Changes ("rollout" :: "parallelism" :: "controller" :: names) v w
      { w with rollout.parallelism := some { p with controller := some c' } } := by
  have hpart : parallelismParts[4] ∈ parallelismParts := List.getElem_mem _
  refine changes_parallelism hv hp ?_
  unfold parallelismShape
  exact .optionalSection hpart rfl hc hv h

/-- A change in `training.checkpointing`. -/
theorem changes_checkpointing (hv : v ≠ .null) {c c' : Checkpointing}
    (hc : w.training.checkpointing = some c) (h : checkpointingShape.Changes names v c c') :
    workflowShape.Changes ("training" :: "checkpointing" :: names) v w
      { w with training.checkpointing := some c' } := by
  have hpart : trainingParts[3] ∈ trainingParts := List.getElem_mem _
  refine changes_training (List.cons_ne_nil _ _) ?_
  unfold trainingShape
  exact .optionalSection hpart rfl hc hv h

/-- A change in `training.proxy`. -/
theorem changes_proxy (hv : v ≠ .null) {x x' : Proxy} (hx : w.training.proxy = some x)
    (h : proxyShape.Changes names v x x') :
    workflowShape.Changes ("training" :: "proxy" :: names) v w
      { w with training.proxy := some x' } := by
  have hpart : trainingParts[4] ∈ trainingParts := List.getElem_mem _
  refine changes_training (List.cons_ne_nil _ _) ?_
  unfold trainingShape
  exact .optionalSection hpart rfl hx hv h

/-- Data with a value set shows the changed workflow. -/
theorem Workflow.ShownBy.assign {w' : Workflow} {root : Value} (h : w.ShownBy root)
    (hne : names ≠ []) (hv : v ≠ .null) (hchanges : workflowShape.Changes names v w w') :
    w'.ShownBy (Value.assign v names root) := by
  obtain ⟨rows, rfl, hrequired, hrows⟩ := h
  obtain ⟨rows', hrows', hshown⟩ := hchanges _ ⟨rows, rfl, hrows⟩
  cases names with
  | nil => exact absurd rfl hne
  | cons name names =>
    have hset := congrArg Value.rows hrows'
    simp only [Value.assign, Value.rows_record] at hset
    refine ⟨rows', hrows', fun field hfield => ?_, hshown⟩
    rw [← hset, Value.lookup_setRow]
    -- what is set is not null, and so the row that holds it is not null either
    split
    · exact fun hnull => Value.assign_ne_null hv _ _ (Option.some.inj hnull)
    · exact hrequired field hfield

end RunPlan
