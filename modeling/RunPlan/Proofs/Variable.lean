import RunPlan.Proofs.Assign
import RunPlan.Proofs.Case
import RunPlan.Proofs.Text
import RunPlan.Workflow.Basic
import Mathlib.Data.List.TakeDrop

/-!
# What a variable sets

The name of an overriding variable, in any letter case, starts with a prefix and goes on
with a path, its parts joined by two underscores. Where the name has no dots or brackets of
its own, the variable sets the value at a path of names: that of the parts, or a single name
when a part is empty or has a character that names in paths do not have.

## Key results

- `keyPath_eq`: a key without indices is a path of names
- `splitPairs_injective`: the parts of a path determine it
- `layered_eq_assignAll`: an environment sets the values of its variables one after the other
-/

namespace RunPlan.Settings

open Text (splitAll)
open Value (assign)

/-! ## Keys without indices -/

/-- Whether a text can be a name in a path. -/
def isPathName (cs : List Char) : Bool :=
  !cs.isEmpty && cs.all isNameChar

/-- The names of a key without indices: those between the dots. A key that is not a path is
    a single name. -/
def keyNames (key : String) : List String :=
  let pieces := splitAll '.' key.toList
  if pieces.all isPathName then pieces.map String.ofList else [key]

/-- There is always a first name. -/
theorem keyNames_ne_nil (key : String) : keyNames key ≠ [] := by
  unfold keyNames
  dsimp only
  split
  · simp [Text.splitAll_ne_nil]
  · exact List.cons_ne_nil _ _

/-- The characters of the names are those of the key. -/
theorem mem_of_mem_keyNames {key name : String} (h : name ∈ keyNames key) {c : Char}
    (hc : c ∈ name.toList) : c ∈ key.toList := by
  unfold keyNames at h
  dsimp only at h
  split at h
  · obtain ⟨piece, hpiece, rfl⟩ := List.mem_map.mp h
    rw [String.toList_ofList] at hc
    have hdot : c ≠ '.' := by
      rintro rfl
      exact Text.separator_notMem_splitAll hpiece hc
    exact (Text.mem_splitAll_iff hdot).mp ⟨piece, hpiece, hc⟩
  · obtain rfl := List.mem_singleton.mp h
    exact hc

/-- Names are read up to the end when all pieces between dots are names. The fuel is enough
    when there is some for each character. -/
private theorem readNames_eq {fuel : Nat} {cs : List Char} (hfuel : cs.length ≤ fuel)
    (h : '[' ∉ cs) :
    (if (cs.span isNameChar).1.isEmpty then none
      else (Selector.name (String.ofList (cs.span isNameChar).1) :: ·) <$>
        readSelectors? fuel (cs.span isNameChar).2) =
      if (splitAll '.' cs).all isPathName then
        some ((splitAll '.' cs).map fun piece => Selector.name (String.ofList piece))
      else none := by
  induction fuel generalizing cs with
  | zero =>
    obtain rfl := List.length_eq_zero_iff.mp (Nat.le_zero.mp hfuel)
    rfl
  | succ fuel ih =>
    have hparts := List.takeWhile_append_dropWhile (p := isNameChar) (l := cs)
    have hname : (cs.takeWhile isNameChar).all isNameChar = true := List.all_takeWhile
    have hnoDot : '.' ∉ cs.takeWhile isNameChar := by
      intro hmem
      exact absurd (List.all_eq_true.mp hname '.' hmem) (by decide)
    have hstop := List.head?_dropWhile_not isNameChar cs
    -- the characters of names end with the key, before a dot, or before one that no path has
    rw [List.span_eq_takeWhile_dropWhile]
    generalize cs.takeWhile isNameChar = first at hparts hname hnoDot
    cases hrest : cs.dropWhile isNameChar with
    | nil =>
      obtain rfl : first = cs := by rw [← hparts, hrest, List.append_nil]
      rw [Text.splitAll_eq_self hnoDot]
      cases first with
      | nil => rfl
      | cons c cs => simp [isPathName, hname, readSelectors?]
    | cons c more =>
      rw [hrest] at hparts hstop
      by_cases hdot : c = '.'
      · subst hdot hparts
        rw [List.length_append, List.length_cons] at hfuel
        rw [List.mem_append, List.mem_cons, not_or, not_or] at h
        have hmore : readSelectors? (fuel + 1) ('.' :: more) = _ :=
          @ih more (by omega) h.2.2
        rw [Text.splitAll_append hnoDot, hmore, List.all_cons, isPathName, hname]
        cases first with
        | nil => rfl
        | cons c cs =>
          by_cases hall : (splitAll '.' more).all isPathName = true
          · simp [hall]
          · simp [hall]
      · -- a character that no name has stays in one of the pieces
        have hnone : readSelectors? (fuel + 1) (c :: more) = none := by
          rw [readSelectors?]
          · exact nofun
          · exact fun _ heq => hdot (List.cons.inj heq).1
          · intro _ heq
            obtain rfl := (List.cons.inj heq).1
            exact h (by simp [← hparts])
        obtain ⟨piece, hpiece, hc⟩ := (Text.mem_splitAll_iff hdot).mpr
          (show c ∈ cs by rw [← hparts]; simp)
        have hbad : isPathName piece = false := by
          have hchar : isNameChar c = false := by simpa using hstop
          rw [isPathName, Bool.and_eq_false_iff]
          exact Or.inr (List.all_eq_false.mpr ⟨c, hc, by simp [hchar]⟩)
        have hall : ¬ (splitAll '.' cs).all isPathName = true := by
          intro hall
          rw [List.all_eq_true.mp hall piece hpiece] at hbad
          cases hbad
        rw [if_neg hall, hnone]
        split <;> rfl

/-- A key without indices is a path of names. -/
theorem keyPath_eq {key : String} (h : '[' ∉ key.toList) :
    keyPath key = (keyNames key).map .name := by
  have hpath : keyPath key = (if (key.toList.span isNameChar).1.isEmpty then none
      else (Selector.name (String.ofList (key.toList.span isNameChar).1) :: ·) <$>
        readSelectors? key.toList.length (key.toList.span isNameChar).2).getD [.name key] := by
    rw [keyPath]
    dsimp only
    split
    · rfl
    · cases readSelectors? key.toList.length (key.toList.span isNameChar).2 <;> rfl
  rw [hpath, readNames_eq (Nat.le_refl _) h, keyNames]
  split
  · rw [Option.getD_some, List.map_map]
    rfl
  · rfl

/-! ## Paths with two underscores -/

/-- The parts of a path that are joined by two underscores, as they are found from left to
    right. -/
def splitPairs : List Char → List (List Char)
  | [] => [[]]
  | '_' :: '_' :: cs => [] :: splitPairs cs
  | c :: cs =>
    match splitPairs cs with
    | [] => [[c]]
    | part :: parts => (c :: part) :: parts

/-- A text is empty, starts with two underscores or starts with another character. -/
private theorem pairs_induction {motive : List Char → Prop} (nil : motive [])
    (pair : ∀ cs, motive cs → motive ('_' :: '_' :: cs))
    (char : ∀ c cs, (∀ rest, c :: cs ≠ '_' :: '_' :: rest) → motive cs → motive (c :: cs))
    (cs : List Char) : motive cs := by
  have hchar (c : Char) (cs : List Char) (h : ∀ rest, c = '_' → cs = '_' :: rest → False)
      (ih : motive cs) : motive (c :: cs) :=
    char c cs (fun rest heq => h rest (List.cons.inj heq).1 (List.cons.inj heq).2) ih
  -- the recursion also tells apart what it makes of the rest, which is of no interest here
  induction cs using splitPairs.induct with
  | case1 => exact nil
  | case2 cs ih => exact pair cs ih
  | case3 c cs h _ ih => exact hchar c cs h ih
  | case4 c cs h _ _ _ ih => exact hchar c cs h ih

/-- A text that starts with no separator is replaced from its second character on. -/
private theorem replaceFrom_cons {c : Char} {cs : List Char}
    (h : ∀ rest, c :: cs ≠ '_' :: '_' :: rest) :
    Text.replaceFrom ['_', '_'] ['.'] 0 (c :: cs) =
      c :: Text.replaceFrom ['_', '_'] ['.'] 0 cs := by
  refine Text.replaceFrom_cons_of_not ?_ ['.']
  rintro ⟨rest, hrest⟩
  exact h rest hrest.symm

/-- The characters of a key. -/
private theorem toList_replaceAll (cs : List Char) :
    (Text.replaceAll "__" "." (String.ofList cs)).toList =
      Text.replaceFrom ['_', '_'] ['.'] 0 cs := by
  simp only [Text.replaceAll, String.toList_ofList]
  rfl

/-- The characters of a key are dots and those of the path. -/
private theorem mem_replaceAll {cs : List Char} {c : Char}
    (h : c ∈ (Text.replaceAll "__" "." (String.ofList cs)).toList) : c = '.' ∨ c ∈ cs := by
  rw [toList_replaceAll] at h
  induction cs using pairs_induction with
  | nil => cases h
  | pair cs ih =>
    rcases List.mem_cons.mp h with rfl | h
    · exact Or.inl rfl
    · exact (ih h).imp_right fun hc => by simp [hc]
  | char c' cs hchar ih =>
    rw [replaceFrom_cons hchar] at h
    rcases List.mem_cons.mp h with rfl | h
    · exact Or.inr List.mem_cons_self
    · exact (ih h).imp_right (List.mem_cons_of_mem c')

/-! ## Variables -/

/-- The parts of the path that the name of a variable spells after the prefix, in lower
    case; `none` for a name without the prefix. -/
def variableParts (name : String) : Option (List (List Char)) :=
  (Text.dropPrefix? variablePrefix.toList (Text.toLower name).toList).map splitPairs

/-- The value that a variable sets, and the names of its path. -/
def variableAssignment (name value : String) : Option (List String × Value) :=
  (variableSetting name value).map fun (key, v) => (keyNames key, v)

/-- Sets values one after the other. -/
def assignAll (root : Value) (assignments : List (List String × Value)) : Value :=
  assignments.foldl (fun root (names, v) => assign v names root) root

/-- A name without dots and brackets of its own. -/
structure IsPlainName (name : String) : Prop where
  dot_notMem : '.' ∉ (Text.toLower name).toList
  bracket_notMem : '[' ∉ (Text.toLower name).toList

/-- The key of a variable, for a name with the prefix. -/
theorem variableSetting_eq_some_iff {name value : String} {setting : String × Value} :
    variableSetting name value = some setting ↔ ∃ path,
      (Text.toLower name).toList = variablePrefix.toList ++ path ∧
        (Text.replaceAll "__" "." (String.ofList path), variableValue value) = setting := by
  simp only [variableSetting, Option.map_eq_some_iff, Text.dropPrefix?_eq_some_iff]

/-- The parts of the path of a variable. -/
theorem variableParts_eq_some_iff {name : String} {parts : List (List Char)} :
    variableParts name = some parts ↔ ∃ path,
      (Text.toLower name).toList = variablePrefix.toList ++ path ∧ splitPairs path = parts := by
  simp only [variableParts, Option.map_eq_some_iff, Text.dropPrefix?_eq_some_iff]

/-- What a variable with a path of names sets. -/
theorem variableAssignment_eq {name path : String}
    (h : Text.toLower name = variablePrefix ++ path) (value : String) :
    variableAssignment name value =
      some (keyNames (Text.replaceAll "__" "." path), variableValue value) := by
  have hsetting : variableSetting name value =
      some (Text.replaceAll "__" "." path, variableValue value) := by
    refine variableSetting_eq_some_iff.mpr ⟨path.toList, ?_, ?_⟩
    · rw [h, String.toList_append]
    · rw [String.ofList_toList]
  rw [variableAssignment, hsetting]
  rfl

/-- A variable is a boolean or a number, or else a text. -/
theorem variableValue_cases (text : String) :
    (∃ b, variableValue text = .bool b) ∨ (∃ n, variableValue text = .int n) ∨
      (∃ x, variableValue text = .float x) ∨ variableValue text = .string text := by
  simp only [variableValue]
  split
  · exact Or.inl ⟨true, rfl⟩
  split
  · exact Or.inl ⟨false, rfl⟩
  split
  · exact Or.inr (Or.inl ⟨_, rfl⟩)
  split
  · exact Or.inr (Or.inr (Or.inl ⟨_, rfl⟩))
  · exact Or.inr (Or.inr (Or.inr rfl))

/-- A variable with a plain name sets the value at its path of names. -/
private theorem setPath_variable {name value : String} (hname : IsPlainName name)
    {setting : String × Value} (h : variableSetting name value = some setting) {root : Value}
    (hroot : IsSettings root) :
    setPath setting.2 (keyPath (Text.toLower setting.1)) root =
      assign setting.2 (keyNames setting.1) root := by
  obtain ⟨path, hpath, rfl⟩ := variableSetting_eq_some_iff.mp h
  have hmem {c : Char} (hc : c ∈ path) : c ∈ (Text.toLower name).toList := by
    rw [hpath]
    exact List.mem_append_right _ hc
  have hlower : ∀ c ∈ (Text.replaceAll "__" "." (String.ofList path)).toList,
      Text.IsLower c := by
    intro c hc
    rcases mem_replaceAll hc with rfl | hc
    · exact Text.isLower_of_ascii (by decide) (by decide)
    · exact Text.isLower_of_mem_toLower (hmem hc)
  have hbracket : '[' ∉ (Text.replaceAll "__" "." (String.ofList path)).toList := by
    intro hc
    rcases mem_replaceAll hc with hc | hc
    · exact absurd hc (by decide)
    · exact hname.bracket_notMem (hmem hc)
  -- values are scalars, which replace what is there and are not merged with it
  have hv (entries : List (Value × Value)) : variableValue value ≠ .mapping entries := by
    rcases variableValue_cases value with ⟨b, hv⟩ | ⟨n, hv⟩ | ⟨x, hv⟩ | hv <;> simp [hv]
  dsimp only
  rw [Text.toLower_eq_self hlower, keyPath_eq hbracket]
  refine setPath_names hv (keyNames_ne_nil _) (fun name hname => ?_) hroot
  exact Text.toLower_eq_self fun c hc => hlower c (mem_of_mem_keyNames hname hc)

/-- An environment of variables with plain names sets their values one after the other. -/
theorem layered_eq_assignAll {entries : List (Value × Value)}
    (h : ∀ entry ∈ entries, IsSettings entry.2) {overrides : List (String × String)}
    (hnames : ∀ pair ∈ overrides, (variableParts pair.1).isSome → IsPlainName pair.1) :
    layered entries overrides = assignAll (layered entries [])
      (overrides.filterMap fun (name, value) => variableAssignment name value) := by
  have hroot := isSettings_layered h []
  change overlay (layered entries []) (environmentLayer overrides) = _
  generalize layered entries [] = root at hroot
  -- the tree stays one of settings with each variable, as `setPath_variable` asks for
  induction overrides generalizing root with
  | nil => rfl
  | cons pair rest ih =>
    obtain ⟨name, value⟩ := pair
    rw [List.forall_mem_cons] at hnames
    cases hsetting : variableSetting name value with
    | none =>
      simp only [environmentLayer, List.filterMap_cons, variableAssignment, hsetting,
        Option.map_none]
      exact ih hnames.2 root hroot
    | some setting =>
      obtain ⟨path, hpath, hsame⟩ := variableSetting_eq_some_iff.mp hsetting
      have hplain : IsPlainName name := by
        apply hnames.1
        rw [variableParts_eq_some_iff.mpr ⟨path, hpath, rfl⟩]
        rfl
      have hvalue : IsSettings setting.2 := by
        rw [← hsame]
        exact isSettings_variableValue value
      have hset := isSettings_setPath hvalue (keyPath (Text.toLower setting.1)) hroot
      have hrest := ih hnames.2 _ hset
      rw [setPath_variable hplain hsetting hroot] at hrest
      have hlayer : environmentLayer ((name, value) :: rest) = setting :: environmentLayer rest := by
        simp only [environmentLayer, List.filterMap_cons, hsetting]
      have hassign : variableAssignment name value = some (keyNames setting.1, setting.2) := by
        simp only [variableAssignment, hsetting, Option.map_some]
      simp only [hlayer, List.filterMap_cons, hassign]
      rw [overlay, List.foldl_cons, assignAll, List.foldl_cons]
      dsimp only
      rw [setPath_variable hplain hsetting hroot]
      exact hrest

/-- Names of a path that the name of a variable can spell. -/
structure IsSpellable (names : List String) : Prop where
  keyNames_eq : keyNames (Text.replaceAll "__" "." (Text.join "__" names)) = names
  dot_notMem : '.' ∉ (variablePrefix ++ Text.join "__" names).toList
  bracket_notMem : '[' ∉ (variablePrefix ++ Text.join "__" names).toList

/-- Such a path has a first name. -/
theorem IsSpellable.ne_nil {names : List String} (h : IsSpellable names) : names ≠ [] := by
  rw [← h.keyNames_eq]
  exact keyNames_ne_nil _

/-- The name of a variable for such a path is plain. -/
theorem IsSpellable.isPlainName {names : List String} (h : IsSpellable names) {name : String}
    (hname : Text.toLower name = variablePrefix ++ Text.join "__" names) : IsPlainName name := by
  refine ⟨?_, ?_⟩
  · rw [hname]
    exact h.dot_notMem
  · rw [hname]
    exact h.bracket_notMem

/-- A variable for such a path sets the value there. -/
theorem IsSpellable.variableAssignment_eq {names : List String} (h : IsSpellable names)
    {name : String} (hname : Text.toLower name = variablePrefix ++ Text.join "__" names)
    (value : String) : variableAssignment name value = some (names, variableValue value) := by
  rw [Settings.variableAssignment_eq hname, h.keyNames_eq]

/-! ## Values of variables -/

/-- No variable is null. -/
theorem variableValue_ne_null (text : String) : variableValue text ≠ .null := by
  rcases variableValue_cases text with ⟨b, hv⟩ | ⟨n, hv⟩ | ⟨x, hv⟩ | hv <;> simp [hv]

/-- A numeral is a number. -/
theorem variableValue_of_readUnsigned? {text : String} {largest n : Nat}
    (hlargest : largest < 2 ^ 63)
    (h : Numeral.readUnsigned? 10 largest text.toList = some n) :
    variableValue text = .int n := by
  have hchars := Numeral.mem_readUnsigned? h
  have hlower : Text.toLower text = text := by
    apply Text.toLower_eq_self
    intro c hc
    rcases hchars c hc with hdigit | rfl
    · have hcode := Numeral.isDigit_iff.mp hdigit
      exact Text.isLower_of_ascii (by omega) (by omega)
    · exact Text.isLower_of_ascii (by decide) (by decide)
  -- a numeral has no letters, so that it is taken for neither of the booleans
  have hword (word : String) (hfirst : 't' ∈ word.toList ∨ 'f' ∈ word.toList) :
      Text.toLower text ≠ word := by
    rw [hlower]
    rintro rfl
    rcases hfirst with hfirst | hfirst
    · exact absurd (hchars _ hfirst) (by decide)
    · exact absurd (hchars _ hfirst) (by decide)
  have hsigned : Numeral.readSigned? 10 text.toList = some (n : Int) := by
    unfold Numeral.readSigned?
    split
    · rename_i rest hrest
      exact absurd (hchars '-' (hrest ▸ List.mem_cons_self)) (by decide)
    · rw [Numeral.readUnsigned?_mono (by omega) h]
      rfl
  simp only [variableValue, if_neg (hword "true" (by decide)),
    if_neg (hword "false" (by decide)), hsigned]

/-- The name of a mode is a text. -/
theorem variableValue_of_mode {text : String} {m : TrainingMode}
    (h : TrainingMode.ofName? text = some m) : variableValue text = .string text := by
  unfold TrainingMode.ofName? at h
  split at h
  · rfl
  · rfl
  · cases h

/-- The name of a level is a text. -/
theorem variableValue_of_level {text : String} {l : LogLevel}
    (h : LogLevel.ofName? text = some l) : variableValue text = .string text := by
  unfold LogLevel.ofName? at h
  split at h
  · rfl
  · rfl
  · rfl
  · rfl
  · rfl
  · cases h

end RunPlan.Settings
