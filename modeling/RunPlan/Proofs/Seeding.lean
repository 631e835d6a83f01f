import RunPlan.Proofs.EnvFile
import Mathlib.Data.Finset.Card
import Mathlib.Data.Finset.Dedup

/-!
# Environments that are seeded from texts

An env file adds variables to an environment and replaces none. `Environment.applyPairs` goes
through the pairs of a text with the environment as its state: a name that is set is passed over,
also when an earlier pair has set it. What the first pair does (`applyPairs_cons`) is followed
through all of them by induction.

The reader of env files gives no name that cannot be set, and reads lines each on its own, so a
text can be cut at any line feed.

## Key results

- `Environment.get?_applyPairs`, `Environment.count_applyPairs`: what pairs set, and how many
- `Environment.applyPairs_append`: pairs are applied in parts
- `EnvFile.isSettable_of_mem_parse`: what is read from a text can be set
- `EnvFile.parse_append`: texts are read one after the other
- `EnvFile.isSeeded_parse`: an environment that is seeded from a text
-/

namespace RunPlan

namespace Environment

variable {env : Environment} {pairs : List (String × String)} {name value : String}

/-! ## One pair after the other -/

/-- Sets a variable that is not set yet, and counts it. -/
def applyPair (state : Environment × Nat) (pair : String × String) : Environment × Nat :=
  if state.1.contains pair.1 then state else (state.1.set pair.1 pair.2, state.2 + 1)

/-- What was counted before is added to what is counted. -/
private theorem foldl_applyPair (env : Environment) (count : Nat) (pairs : List (String × String)) :
    pairs.foldl applyPair (env, count) =
      ((env.applyPairs pairs).1, (env.applyPairs pairs).2 + count) := by
  have hstart (env : Environment) (pairs : List (String × String)) :
      env.applyPairs pairs = pairs.foldl applyPair (env, 0) := rfl
  induction pairs generalizing env count with
  | nil => exact congrArg (Prod.mk env) (Nat.zero_add count).symm
  | cons pair pairs ih =>
    rw [hstart, List.foldl_cons, List.foldl_cons, applyPair, applyPair]
    by_cases hset : env.contains pair.1 = true
    · rw [if_pos hset, if_pos hset]
      exact ih env count
    · rw [if_neg hset, if_neg hset]
      dsimp only
      rw [ih _ (count + 1), ih _ (0 + 1)]
      exact congrArg (Prod.mk _) (by omega)

/-- The first pair sets its name, unless that is set already. -/
theorem applyPairs_cons (env : Environment) (name value : String)
    (pairs : List (String × String)) :
    env.applyPairs ((name, value) :: pairs) =
      if env.contains name then env.applyPairs pairs
      else (((env.set name value).applyPairs pairs).1,
        ((env.set name value).applyPairs pairs).2 + 1) := by
  show pairs.foldl applyPair (applyPair (env, 0) (name, value)) = _
  rw [applyPair]
  split
  · rfl
  · exact foldl_applyPair _ _ pairs

/-- Pairs are applied in parts. -/
theorem applyPairs_append (env : Environment) (pairs others : List (String × String)) :
    env.applyPairs (pairs ++ others) =
      (((env.applyPairs pairs).1.applyPairs others).1,
        (env.applyPairs pairs).2 + ((env.applyPairs pairs).1.applyPairs others).2) := by
  show (pairs ++ others).foldl applyPair (env, 0) = _
  -- what the first pairs leave is the state in which the others are applied
  rw [List.foldl_append, foldl_applyPair]
  exact congrArg (Prod.mk _) (Nat.add_comm _ _)

/-! ## What is set -/

/-- A variable that is set has a value. -/
theorem contains_iff : env.contains name = true ↔ env.get? name ≠ none := by
  rw [Ne, get?, lookup_eq_none_iff, not_not]
  simp [contains]

/-- Variables keep their values, and others get the first value that a pair has for them. -/
theorem get?_applyPairs (env : Environment) (pairs : List (String × String)) (name : String) :
    (env.applyPairs pairs).1.get? name = (env.get? name).or (pairs.lookup name) := by
  induction pairs generalizing env with
  | nil => exact Option.or_none.symm
  | cons pair pairs ih =>
    obtain ⟨key, value⟩ := pair
    rw [applyPairs_cons, lookup_cons_eq]
    by_cases hset : env.contains key = true
    · rw [if_pos hset, ih]
      by_cases hname : name = key
      · -- the value that is there counts, whatever the pairs have
        obtain ⟨old, hold⟩ := Option.ne_none_iff_exists'.mp (contains_iff.mp hset)
        rw [hname, hold]
        rfl
      · rw [if_neg hname]
    · have hnone : env.get? key = none := by simpa [contains_iff] using hset
      rw [if_neg hset]
      dsimp only
      rw [ih, get?_set]
      by_cases hname : name = key
      · rw [if_pos hname, if_pos hname, hname, hnone]
        rfl
      · rw [if_neg hname, if_neg hname]

/-- The names of pairs that are not set. -/
def newNames (env : Environment) (pairs : List (String × String)) : Finset String :=
  (pairs.map Prod.fst).toFinset.filter fun name => env.get? name = none

theorem mem_newNames_iff :
    name ∈ env.newNames pairs ↔ name ∈ pairs.map Prod.fst ∧ env.get? name = none := by
  rw [newNames, Finset.mem_filter, List.mem_toFinset]

/-- The names that were not set are counted, each of them once. -/
theorem count_applyPairs (env : Environment) (pairs : List (String × String)) :
    (env.applyPairs pairs).2 = (env.newNames pairs).card := by
  induction pairs generalizing env with
  | nil => rfl
  | cons pair pairs ih =>
    obtain ⟨key, value⟩ := pair
    rw [applyPairs_cons]
    by_cases hset : env.contains key = true
    · -- the name makes no difference to those that are not set
      have hsame : env.newNames ((key, value) :: pairs) = env.newNames pairs := by
        ext name
        rw [mem_newNames_iff, mem_newNames_iff, List.map_cons, List.mem_cons, or_and_right,
          or_iff_right]
        rintro ⟨rfl, hnone⟩
        exact contains_iff.mp hset hnone
      rw [if_pos hset, ih, hsame]
    · have hnone : env.get? key = none := by simpa [contains_iff] using hset
      have hnew : key ∉ (env.set key value).newNames pairs := by
        simp [mem_newNames_iff, get?_set]
      have hinsert : env.newNames ((key, value) :: pairs) =
          insert key ((env.set key value).newNames pairs) := by
        ext name
        rw [Finset.mem_insert, mem_newNames_iff, mem_newNames_iff, get?_set]
        by_cases hname : name = key <;> simp [hname, hnone]
      rw [if_neg hset, hinsert, Finset.card_insert_of_notMem hnew, ih]

/-- Nothing is set and counted when every name is set. -/
theorem applyPairs_eq_self (h : ∀ pair ∈ pairs, env.get? pair.1 ≠ none) :
    env.applyPairs pairs = (env, 0) := by
  induction pairs with
  | nil => rfl
  | cons pair pairs ih =>
    obtain ⟨hpair, hpairs⟩ := List.forall_mem_cons.mp h
    rw [applyPairs_cons, if_pos (contains_iff.mpr hpair)]
    exact ih hpairs

/-- Every name of a pair is set afterwards. -/
theorem get?_applyPairs_ne_none {pair : String × String} (h : pair ∈ pairs) :
    (env.applyPairs pairs).1.get? pair.1 ≠ none := by
  rw [get?_applyPairs, Ne, Option.or_eq_none_iff, lookup_eq_none_iff, not_and_or, not_not]
  exact Or.inr (List.mem_map_of_mem h)

/-- What applying pairs to an environment gives: an environment, and a number. -/
structure IsSeeded (env : Environment) (pairs : List (String × String))
    (result : Environment × Nat) : Prop where
  /-- Every variable that was set has its old value. -/
  kept : ∀ name value, env.get? name = some value → result.1.get? name = some value
  /-- Every other name of a pair has the value of the first pair with that name. -/
  first : ∀ before name value after, pairs = before ++ (name, value) :: after →
    name ∉ before.map Prod.fst → env.get? name = none → result.1.get? name = some value
  /-- No other variable is set. -/
  others : ∀ name, env.get? name = none → name ∉ pairs.map Prod.fst → result.1.get? name = none
  /-- The number is that of the names that were not set. -/
  count : result.2 = (env.newNames pairs).card
  /-- Applying the pairs again changes nothing. -/
  again : result.1.applyPairs pairs = (result.1, 0)

/-- An environment is seeded by applying pairs to it. -/
theorem isSeeded_applyPairs (env : Environment) (pairs : List (String × String)) :
    env.IsSeeded pairs (env.applyPairs pairs) where
  kept name value h := by
    rw [get?_applyPairs, h]
    rfl
  first before name value after hpairs hbefore h := by
    rw [get?_applyPairs, h, hpairs, List.lookup_append, lookup_eq_none hbefore, lookup_cons_eq,
      if_pos rfl]
    rfl
  others name h hname := by
    rw [get?_applyPairs, h, lookup_eq_none hname]
    rfl
  count := count_applyPairs env pairs
  again := applyPairs_eq_self fun _ h => get?_applyPairs_ne_none h

end Environment

namespace EnvFile

open Text

/-- Whether a variable can be set: the name is not empty and holds no `=`, and neither the name nor
    the value holds a NUL. -/
structure IsSettable (name value : String) : Prop where
  name_ne : name ≠ ""
  no_equals : '=' ∉ name.toList
  no_nul : '\x00' ∉ name.toList ∧ '\x00' ∉ value.toList

/-- What is read from a text without NUL can be set. -/
theorem isSettable_of_mem_parse {text name value : String} (hnul : '\x00' ∉ text.toList)
    (h : (name, value) ∈ parse text) : IsSettable name value := by
  have hmem := h
  rw [parse_eq_filterMap] at hmem
  obtain ⟨line, -, hline⟩ := List.mem_filterMap.mp hmem
  obtain ⟨-, before, after, hsplit, hne, rfl, -⟩ := parseLine_eq_some_iff.mp hline
  refine ⟨?_, ?_, fun hc => hnul (mem_of_mem_parse h (Or.inl hc)).1,
    fun hc => hnul (mem_of_mem_parse h (Or.inr hc)).1⟩
  · rw [← String.ofList_nil, Ne, String.ofList_inj]
    exact hne
  · rw [String.toList_ofList]
    exact fun hc => (splitOnce_eq_some_iff.mp hsplit).1 (mem_of_mem_trim hc)

/-- Texts that are joined by a line feed are read one after the other. -/
theorem parse_append (text next : String) :
    parse (text ++ "\n" ++ next) = parse text ++ parse next := by
  have hjoined : (text ++ "\n" ++ next).toList = text.toList ++ '\n' :: next.toList := by simp
  rw [parse_eq_filterMap, hjoined, splitAll_append_cons, List.filterMap_append,
    ← parse_eq_filterMap, ← parse_eq_filterMap]

/-- Seeding an environment from a text sets what can be set, keeps what is set, and takes the first
    value of every other name; doing so again changes nothing. Two texts seed it one after the
    other like the text of both. -/
theorem isSeeded_parse (env : Environment) {text : String} (hnul : '\x00' ∉ text.toList) :
    (∀ pair ∈ parse text, IsSettable pair.1 pair.2) ∧
      env.IsSeeded (parse text) (env.applyPairs (parse text)) ∧
      ∀ next : String,
        let seeded := env.applyPairs (parse text)
        let both := seeded.1.applyPairs (parse next)
        env.applyPairs (parse (text ++ "\n" ++ next)) = (both.1, seeded.2 + both.2) := by
  refine ⟨fun pair h => isSettable_of_mem_parse hnul h, env.isSeeded_applyPairs _, fun next => ?_⟩
  rw [parse_append]
  exact env.applyPairs_append _ _

/-- A variable that is set and one that the text has twice. -/
theorem isSeeded_parse_repeated :
    let env : Environment := [("A", "0")]
    let text := "B=1\nexport A='2'\r\n# C=3\nB=4"
    let seeded := env.applyPairs (parse text)
    '\x00' ∉ text.toList ∧ parse text = [("B", "1"), ("A", "2"), ("B", "4")] ∧
      seeded.1.get? "A" = some "0" ∧ seeded.1.get? "B" = some "1" ∧ seeded.1.get? "C" = none ∧
      seeded.2 = 1 ∧ seeded.1.applyPairs (parse text) = (seeded.1, 0) := by
  intro env text seeded
  have hnul : '\x00' ∉ text.toList := by decide
  have hparse : parse text = [] ++ ("B", "1") :: [("A", "2"), ("B", "4")] := by decide
  obtain ⟨-, hseeded, -⟩ := isSeeded_parse env hnul
  have hcount : (env.newNames (parse text)).card = 1 := by decide
  exact ⟨hnul, hparse, hseeded.kept "A" "0" rfl,
    hseeded.first _ "B" "1" _ hparse (by decide) rfl, hseeded.others "C" rfl (by decide),
    hseeded.count.trans hcount, hseeded.again⟩

end EnvFile

end RunPlan
