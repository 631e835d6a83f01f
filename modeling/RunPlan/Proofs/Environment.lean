import RunPlan.Environment
import Mathlib.Data.List.Forall2
import Mathlib.Data.List.Nodup
import Mathlib.Data.String.Basic

/-!
# What an environment holds

An environment is built by setting one variable after the other. When no name is set
twice, the environment holds exactly the variables that were set (`mem_setOptions_iff`).

## Key results

- `mem_set_of_ne`: setting a variable leaves the others alone
- `mem_setOptions_iff`: the variables of an environment with distinct names
- `get?_setOptions`: the value of a variable in such an environment
- `isMapOf_ofPairs`: the map that is made of pairs
- `Corresponds.setOptions`: environments that are built from values that correspond
-/

namespace RunPlan.Environment

/-- A variable that was set is there. -/
theorem mem_set (name value : String) (env : Environment) :
    (name, value) ∈ env.set name value := by
  induction env with
  | nil => simp [set]
  | cons pair env ih =>
    simp only [set]
    split
    · simp
    split
    · simp
    · exact List.mem_cons_of_mem _ ih

/-- Setting a variable leaves the others alone. -/
theorem mem_set_of_ne {key name : String} (h : key ≠ name) (v value : String)
    (env : Environment) : (key, v) ∈ env.set name value ↔ (key, v) ∈ env := by
  induction env with
  | nil => simp [set, h]
  | cons pair env ih =>
    obtain ⟨first, old⟩ := pair
    simp only [set]
    split
    · rename_i heq
      subst heq
      simp [h]
    split
    · simp [h]
    · rw [List.mem_cons, List.mem_cons, ih]

/-- Setting a variable brings in that one only. -/
theorem mem_of_mem_set {name value : String} {pair : String × String} {env : Environment}
    (h : pair ∈ env.set name value) : pair = (name, value) ∨ pair ∈ env := by
  induction env with
  | nil => simpa [set] using h
  | cons first env ih =>
    simp only [set] at h
    split at h
    · exact (List.mem_cons.mp h).imp_right (List.mem_cons_of_mem _)
    split at h
    · exact List.mem_cons.mp h
    · rcases List.mem_cons.mp h with h | h
      · exact Or.inr (h ▸ List.mem_cons_self)
      · exact (ih h).imp_right (List.mem_cons_of_mem _)

/-- Sets each variable that has a value. -/
def setOptions (vars : List (String × Option String)) (env : Environment) :
    Environment :=
  vars.foldl (fun env (name, value) => env.setOption name value) env

/-- An environment that is built from distinct names holds the variables with a
    value. -/
theorem mem_setOptions_iff {vars : List (String × Option String)}
    (hnames : (vars.map Prod.fst).Nodup) {name value : String} :
    (name, value) ∈ empty.setOptions vars ↔ (name, some value) ∈ vars := by
  suffices h : ∀ env : Environment, (∀ n ∈ vars.map Prod.fst, ∀ v, (n, v) ∉ env) →
      ((name, value) ∈ env.setOptions vars ↔
        (name, value) ∈ env ∨ (name, some value) ∈ vars) by
    simpa [empty] using h empty (by simp [empty])
  -- in the environment so far there is none of the names that are still to be set
  induction vars with
  | nil => simp [setOptions]
  | cons first vars ih =>
    obtain ⟨key, value?⟩ := first
    rw [List.map_cons, List.nodup_cons] at hnames
    intro env hfresh
    have hset : ∀ n ∈ vars.map Prod.fst, ∀ v, (n, v) ∉ env.setOption key value? := by
      intro n hn v hmem
      have hold : (n, v) ∉ env := hfresh n (List.mem_cons_of_mem _ hn) v
      have hne : n ≠ key := fun heq => hnames.1 (heq ▸ hn)
      cases value? with
      | none => exact hold hmem
      | some value => exact hold ((mem_set_of_ne hne _ _ _).mp hmem)
    rw [setOptions, List.foldl_cons, ← setOptions, ih hnames.2 _ hset, List.mem_cons,
      ← or_assoc]
    apply or_congr_left
    cases value? with
    | none => simp [setOption]
    | some v =>
      by_cases hname : name = key
      · subst hname
        have hold : ∀ v, (name, v) ∉ env := hfresh name List.mem_cons_self
        constructor
        · intro hmem
          rcases mem_of_mem_set hmem with heq | hmem
          · simp_all
          · exact absurd hmem (hold _)
        · rintro (hmem | heq)
          · exact absurd hmem (hold _)
          · obtain rfl : value = v := by simpa using heq
            exact mem_set _ _ _
      · simp [setOption, mem_set_of_ne hname, hname]

/-! ## Reading a variable -/

/-- The first pair of a name has its value. -/
theorem lookup_cons_eq {β : Type} (key name : String) (value : β) (pairs : List (String × β)) :
    ((name, value) :: pairs).lookup key =
      if key = name then some value else pairs.lookup key := by
  rw [List.lookup_cons]
  by_cases h : key = name
  · rw [if_pos h, beq_iff_eq.mpr h]
  · rw [if_neg h, beq_eq_false_iff_ne.mpr h]

/-- A name that no pair has is not found. -/
theorem lookup_eq_none {β : Type} {key : String} {pairs : List (String × β)}
    (h : key ∉ pairs.map Prod.fst) : pairs.lookup key = none := by
  rw [List.lookup_eq_none_iff]
  intro pair hpair
  rw [bne_iff_ne]
  intro heq
  exact h (List.mem_map.mpr ⟨pair, hpair, heq.symm⟩)

/-- A name is not found when no pair has it. -/
theorem lookup_eq_none_iff {β : Type} {key : String} {pairs : List (String × β)} :
    pairs.lookup key = none ↔ key ∉ pairs.map Prod.fst := by
  refine ⟨fun h hmem => ?_, lookup_eq_none⟩
  obtain ⟨pair, hpair, rfl⟩ := List.mem_map.mp hmem
  simpa using List.lookup_eq_none_iff.mp h pair hpair

/-- What is found under a name is one of the pairs. -/
theorem mem_of_lookup_eq_some {β : Type} {key : String} {value : β}
    {pairs : List (String × β)} (h : pairs.lookup key = some value) : (key, value) ∈ pairs := by
  obtain ⟨before, after, rfl, -⟩ := List.lookup_eq_some_iff.mp h
  simp

/-- A value is found under its key where no key is there twice. -/
theorem lookup_of_mem {β : Type} {pairs : List (String × β)}
    (hdistinct : (pairs.map Prod.fst).Nodup) {pair : String × β} (hpair : pair ∈ pairs) :
    pairs.lookup pair.1 = some pair.2 := by
  cases hlookup : pairs.lookup pair.1 with
  | none => exact absurd (List.mem_map_of_mem hpair) (lookup_eq_none_iff.mp hlookup)
  | some value =>
    have hmem := mem_of_lookup_eq_some hlookup
    rw [← List.inj_on_of_nodup_map hdistinct hmem hpair rfl]

theorem get?_cons (key name value : String) (env : Environment) :
    get? ((name, value) :: env) key = if key = name then some value else get? env key :=
  lookup_cons_eq key name value env

/-- Setting a variable gives it its value, and leaves the others alone. -/
theorem get?_set (key name value : String) (env : Environment) :
    (env.set name value).get? key = if key = name then some value else env.get? key := by
  induction env with
  | nil => exact get?_cons key name value []
  | cons pair env ih =>
    obtain ⟨first, old⟩ := pair
    simp only [set]
    split
    · rename_i heq
      subst heq
      rw [get?_cons, get?_cons]
      split <;> rfl
    split
    · exact get?_cons ..
    · rename_i hne _
      rw [get?_cons, get?_cons, ih]
      split
      · -- the name that stays in front is not the one that is set
        rename_i hkey
        rw [if_neg fun h => hne (h.symm.trans hkey)]
      · rfl

/-- A variable keeps its value when there is none to set. -/
theorem get?_setOption (key name : String) (value? : Option String) (env : Environment) :
    (env.setOption name value?).get? key =
      if key = name then value?.or (env.get? key) else env.get? key := by
  cases value? with
  | none => simp [setOption]
  | some value => exact get?_set key name value env

/-- An environment that is built from distinct names gives each variable its value. -/
theorem get?_setOptions {vars : List (String × Option String)}
    (hnames : (vars.map Prod.fst).Nodup) (key : String) :
    (empty.setOptions vars).get? key = (vars.lookup key).join := by
  suffices h : ∀ env : Environment, (env.setOptions vars).get? key =
      ((vars.lookup key).join).or (env.get? key) by
    rw [h empty]
    exact Option.or_none
  induction vars with
  | nil => exact fun env => rfl
  | cons first vars ih =>
    obtain ⟨name, value?⟩ := first
    rw [List.map_cons, List.nodup_cons] at hnames
    intro env
    rw [setOptions, List.foldl_cons, ← setOptions, ih hnames.2, lookup_cons_eq, get?_setOption]
    by_cases hkey : key = name
    · -- a name that has been set is not set again
      subst hkey
      rw [lookup_eq_none hnames.1, if_pos rfl, if_pos rfl]
      rfl
    · rw [if_neg hkey, if_neg hkey]

/-! ## Maps -/

/-- Whether an environment is the map that pairs make when they are put in one after the other:
    it has the last value of each name, and its names are in ascending order. -/
structure IsMapOf (env : Environment) (pairs : List (String × String)) : Prop where
  ordered : (env.map Prod.fst).Pairwise (· < ·)
  value : ∀ name, env.get? name = pairs.reverse.lookup name

/-- Setting a variable brings in that name only. -/
private theorem mem_map_fst_set {key name value : String} {env : Environment}
    (h : key ∈ (env.set name value).map Prod.fst) : key = name ∨ key ∈ env.map Prod.fst := by
  obtain ⟨pair, hpair, rfl⟩ := List.mem_map.mp h
  cases mem_of_mem_set hpair with
  | inl heq => exact Or.inl (by rw [heq])
  | inr hmem => exact Or.inr (List.mem_map_of_mem hmem)

/-- Setting a variable keeps names in order. -/
theorem ordered_set {env : Environment} (h : (env.map Prod.fst).Pairwise (· < ·))
    (name value : String) : ((env.set name value).map Prod.fst).Pairwise (· < ·) := by
  induction env with
  | nil => exact List.pairwise_singleton _ _
  | cons pair env ih =>
    obtain ⟨key, old⟩ := pair
    obtain ⟨hkey, hrest⟩ := List.pairwise_cons.mp h
    simp only [set]
    split
    · rename_i heq
      exact heq ▸ h
    rename_i hne
    split
    · rename_i hlt
      exact List.pairwise_cons.mpr
        ⟨List.forall_mem_cons.mpr ⟨hlt, fun k hk => String.lt_trans hlt (hkey k hk)⟩, h⟩
    · rename_i hle
      refine List.pairwise_cons.mpr ⟨fun k hk => ?_, ih hrest⟩
      cases mem_map_fst_set hk with
      | inl heq =>
        rw [heq]
        exact lt_of_le_of_ne (not_lt.mp hle) (Ne.symm hne)
      | inr hmem => exact hkey k hmem

/-- Setting one variable after the other keeps names in order. -/
private theorem ordered_foldl {env : Environment} (h : (env.map Prod.fst).Pairwise (· < ·))
    (pairs : List (String × String)) :
    ((pairs.foldl (fun env pair => env.set pair.1 pair.2) env).map Prod.fst).Pairwise (· < ·) := by
  induction pairs generalizing env with
  | nil => exact h
  | cons pair pairs ih => exact ih (ordered_set h pair.1 pair.2)

/-- What a variable is when others have been set one after the other. -/
private theorem get?_foldl (env : Environment) (pairs : List (String × String)) (name : String) :
    get? (pairs.foldl (fun env pair => env.set pair.1 pair.2) env) name =
      (pairs.reverse.lookup name).or (env.get? name) := by
  induction pairs generalizing env with
  | nil => rfl
  | cons pair pairs ih =>
    obtain ⟨key, value⟩ := pair
    -- the first pair counts when no later one has its name
    rw [List.foldl_cons, ih, List.reverse_cons, List.lookup_append, lookup_cons_eq, get?_set,
      Option.or_assoc]
    by_cases hname : name = key
    · rw [if_pos hname, if_pos hname]
      rfl
    · rw [if_neg hname, if_neg hname]
      rfl

/-- The map of a list of pairs. -/
theorem isMapOf_ofPairs (pairs : List (String × String)) : (ofPairs pairs).IsMapOf pairs where
  ordered := ordered_foldl .nil pairs
  value name := (get?_foldl empty pairs name).trans Option.or_none

/-! ## Environments that correspond -/

/-- Whether two environments have the same names, with values that correspond. -/
def Corresponds (R : String → String → String → Prop) : Environment → Environment → Prop :=
  List.Forall₂ fun pair pair' => pair.1 = pair'.1 ∧ R pair.1 pair.2 pair'.2

variable {R : String → String → String → Prop} {env env' : Environment}

/-- Setting a variable to values that correspond. -/
theorem Corresponds.set (h : Corresponds R env env') {name value value' : String}
    (hvalue : R name value value') : Corresponds R (env.set name value) (env'.set name value') := by
  induction h with
  | nil => exact .cons ⟨rfl, hvalue⟩ .nil
  | @cons pair pair' rest rest' hpair hrest ih =>
    obtain ⟨key, old⟩ := pair
    obtain ⟨key', old'⟩ := pair'
    obtain ⟨rfl, hold⟩ : key = key' ∧ R key old old' := hpair
    simp only [Environment.set]
    by_cases heq : name = key
    · rw [if_pos heq, if_pos heq]
      exact .cons ⟨rfl, hvalue⟩ hrest
    rw [if_neg heq, if_neg heq]
    by_cases hlt : name < key
    · rw [if_pos hlt, if_pos hlt]
      exact .cons ⟨rfl, hvalue⟩ (.cons ⟨rfl, hold⟩ hrest)
    · rw [if_neg hlt, if_neg hlt]
      exact .cons ⟨rfl, hold⟩ ih

/-- Setting variables to values that correspond, where there are any. -/
theorem Corresponds.setOptions {vars vars' : List (String × Option String)}
    (hvars : List.Forall₂ (fun var var' => var.1 = var'.1 ∧ Option.Rel (R var.1) var.2 var'.2)
      vars vars') (h : Corresponds R env env') :
    Corresponds R (env.setOptions vars) (env'.setOptions vars') := by
  induction hvars generalizing env env' with
  | nil => exact h
  | @cons var var' vars vars' hvar hvars ih =>
    obtain ⟨name, value?⟩ := var
    obtain ⟨name', value'?⟩ := var'
    obtain ⟨rfl, hvalue⟩ : name = name' ∧ Option.Rel (R name) value? value'? := hvar
    cases hvalue with
    | none => exact ih h
    | some hvalue => exact ih (h.set hvalue)

/-- Environments that correspond have the same names. -/
theorem Corresponds.map_fst_eq (h : Corresponds R env env') :
    env'.map Prod.fst = env.map Prod.fst := by
  induction h with
  | nil => rfl
  | cons hpair _ ih => rw [List.map_cons, List.map_cons, ih, hpair.1]

/-- What is found under a name corresponds. -/
theorem Corresponds.get? (h : Corresponds R env env') (name : String) :
    Option.Rel (R name) (env.get? name) (env'.get? name) := by
  induction h with
  | nil => exact .none
  | @cons pair pair' rest rest' hpair _ ih =>
    obtain ⟨key, value⟩ := pair
    obtain ⟨key', value'⟩ := pair'
    obtain ⟨rfl, hvalue⟩ : key = key' ∧ R key value value' := hpair
    rw [get?_cons, get?_cons]
    by_cases heq : name = key
    · rw [if_pos heq, if_pos heq, heq]
      exact .some hvalue
    · rw [if_neg heq, if_neg heq]
      exact ih

end RunPlan.Environment
