import RunPlan.FileSystem
import RunPlan.Proofs.PathParts

/-!
# Where paths lead

A path is followed through directories only, so what it leads to depends on the directories
on its way and on what stands at its end. Files that are written and directories that are
created leave the directories there were, so they do not lead a path elsewhere.

## Key results

- `follow_cons_iff`, `follow_append`: following a path name by name
- `KeepsDirectories.resolve`: a path leads where it led when directories stay
- `resolve_child`: a name in the directory that a path leads to
- `follow_put`: a path that led to nothing leads to what is put there
-/

namespace RunPlan

namespace FileSystem

variable {fs fs' : FileSystem} {here l l' : Location} {e e' : Entry} {name : List Char}
  {names names' : List (List Char)} {p : Path}

/-! ## Entries -/

/-- Leaving out the entries of another location makes no difference. -/
private theorem lookup_filter_append (entries : List (Location × Entry)) :
    (entries.filter (·.1 ≠ l) ++ [(l, e)]).lookup l' =
      if l' = l then some e else entries.lookup l' := by
  induction entries with
  | nil =>
    show ([(l, e)] : List (Location × Entry)).lookup l' = _
    rw [List.lookup_cons]
    by_cases hl : l' = l
    · rw [if_pos hl, beq_iff_eq.mpr hl]
    · rw [if_neg hl, beq_eq_false_iff_ne.mpr hl]
  | cons entry entries ih =>
    obtain ⟨m, d⟩ := entry
    by_cases hm : m = l
    · -- this entry is left out
      rw [List.filter_cons_of_neg (by simpa using hm), ih, List.lookup_cons, hm]
      by_cases hl : l' = l
      · rw [if_pos hl, if_pos hl]
      · rw [if_neg hl, if_neg hl, beq_eq_false_iff_ne.mpr hl]
    · rw [List.filter_cons_of_pos (by simpa using hm), List.cons_append, List.lookup_cons, ih,
        List.lookup_cons]
      by_cases hlm : l' = m
      · have hne : l' ≠ l := hlm ▸ hm
        simp only [if_neg hne]
      · rw [beq_eq_false_iff_ne.mpr hlm]

/-- What is put somewhere is there, and all else is what it was. -/
theorem at?_put (fs : FileSystem) (hl : l ≠ []) (e : Entry) (l' : Location) :
    (fs.put l e).at? l' = if l' = l then some e else fs.at? l' := by
  unfold at?
  by_cases hroot : l' = []
  · rw [if_pos hroot, if_pos hroot, if_neg (hroot ▸ hl.symm)]
  · rw [if_neg hroot, if_neg hroot]
    exact lookup_filter_append fs.entries

/-- Directories stay directories. -/
def KeepsDirectories (fs fs' : FileSystem) : Prop :=
  ∀ l, fs.at? l = some .directory → fs'.at? l = some .directory

theorem KeepsDirectories.refl (fs : FileSystem) : KeepsDirectories fs fs :=
  fun _ h => h

theorem KeepsDirectories.trans {fs'' : FileSystem} (h : KeepsDirectories fs fs')
    (h' : KeepsDirectories fs' fs'') : KeepsDirectories fs fs'' :=
  fun l hl => h' l (h l hl)

/-- Nothing but a directory can take the place of one. -/
theorem KeepsDirectories.put (hl : fs.at? l ≠ some .directory) :
    KeepsDirectories fs (fs.put l e) := by
  intro m hm
  -- the root is a directory, so it is not the location
  have hroot : l ≠ [] := by
    rintro rfl
    exact hl rfl
  have hne : m ≠ l := by
    rintro rfl
    exact hl hm
  rw [at?_put fs hroot, if_neg hne, hm]

/-! ## Following names -/

/-- Where a name leads from a directory. -/
def next (here : Location) (name : List Char) : Location :=
  if Path.isVoid name then here
  else if name = ['.', '.'] then here.dropLast
  else here ++ [String.ofList name]

/-- Nothing is left to follow. -/
theorem follow_nil (fs : FileSystem) (here : Location) :
    fs.follow here [] = match fs.at? here with
      | some e => .ok (.existing here e)
      | none => .error .notFound := rfl

theorem follow_nil_iff :
    fs.follow here [] = .ok (.existing l e) ↔ here = l ∧ fs.at? here = some e := by
  rw [follow_nil]
  cases fs.at? here with
  | none => simp
  | some d => simp

/-- Where nothing is left to follow, nothing can be missing. -/
theorem exists_of_follow_nil {t : Target} (h : fs.follow here [] = .ok t) :
    ∃ e, t = .existing here e ∧ fs.at? here = some e := by
  rw [follow_nil] at h
  cases hhere : fs.at? here with
  | none => simp [hhere] at h
  | some e =>
    simp only [hhere, Except.ok.injEq] at h
    exact ⟨e, h.symm, rfl⟩

/-- A name is followed from a directory only. -/
theorem at?_of_follow_cons {t : Target} (h : fs.follow here (name :: names) = .ok t) :
    fs.at? here = some .directory := by
  unfold follow at h
  cases hhere : fs.at? here with
  | none => simp [hhere] at h
  | some d =>
    cases d with
    | directory => rfl
    | text => simp [hhere] at h
    | binary => simp [hhere] at h

/-- The ways to follow a name from a directory. -/
theorem follow_cons_directory (hhere : fs.at? here = some .directory) :
    fs.follow here (name :: names) =
      if Path.isVoid name then fs.follow here names
      else if name = ['.', '.'] then fs.follow here.dropLast names
      else if (fs.at? (here ++ [String.ofList name])).isSome then
        fs.follow (here ++ [String.ofList name]) names
      else if onlySeparators names then
        .ok (.missing (here ++ [String.ofList name]) (!names.isEmpty))
      else .error .notFound := by
  rw [follow, hhere]

/-- Only what is there can be followed further. -/
theorem at?_isSome_of_follow {t : Target} (h : fs.follow here names = .ok t) :
    (fs.at? here).isSome = true := by
  cases names with
  | nil =>
    obtain ⟨e, -, hhere⟩ := exists_of_follow_nil h
    rw [hhere]
    rfl
  | cons name names =>
    rw [at?_of_follow_cons h]
    rfl

/-- A name that leads somewhere is followed from there. -/
theorem follow_cons_of_isSome (hhere : fs.at? here = some .directory)
    (hnext : (fs.at? (next here name)).isSome = true) :
    fs.follow here (name :: names) = fs.follow (next here name) names := by
  rw [follow_cons_directory hhere]
  unfold next at hnext ⊢
  by_cases hvoid : Path.isVoid name = true
  · simp only [if_pos hvoid]
  · by_cases hup : name = ['.', '.']
    · simp only [if_neg hvoid, if_pos hup]
    · simp only [if_neg hvoid, if_neg hup] at hnext ⊢
      rw [if_pos hnext]

/-- A name leads on from a directory to what the names after it lead to. -/
theorem follow_cons_iff :
    fs.follow here (name :: names) = .ok (.existing l e) ↔
      fs.at? here = some .directory ∧ fs.follow (next here name) names = .ok (.existing l e) := by
  constructor
  · intro h
    have hhere := at?_of_follow_cons h
    refine ⟨hhere, ?_⟩
    rw [follow_cons_directory hhere] at h
    unfold next
    by_cases hvoid : Path.isVoid name = true
    · simpa only [if_pos hvoid] using h
    · by_cases hup : name = ['.', '.']
      · simpa only [if_neg hvoid, if_pos hup] using h
      · simp only [if_neg hvoid, if_neg hup] at h ⊢
        -- a name that its directory does not hold leads to nothing that exists
        split at h
        · exact h
        · split at h
          · cases h
          · cases h
  · intro ⟨hhere, h⟩
    rw [follow_cons_of_isSome hhere (at?_isSome_of_follow h)]
    exact h

/-- What is reached is there. -/
theorem at?_of_follow (h : fs.follow here names = .ok (.existing l e)) : fs.at? l = some e := by
  induction names generalizing here with
  | nil =>
    obtain ⟨rfl, hl⟩ := follow_nil_iff.mp h
    exact hl
  | cons name names ih => exact ih (follow_cons_iff.mp h).2

/-- Further names are followed from the directory that the first ones lead to. -/
theorem follow_append (h : fs.follow here names = .ok (.existing l .directory)) :
    fs.follow here (names ++ names') = fs.follow l names' := by
  induction names generalizing here with
  | nil =>
    obtain ⟨rfl, -⟩ := follow_nil_iff.mp h
    rfl
  | cons name names ih =>
    obtain ⟨hhere, hnext⟩ := follow_cons_iff.mp h
    rw [List.cons_append, follow_cons_of_isSome hhere (at?_isSome_of_follow hnext), ih hnext]

/-- A separator at the end makes no difference to a directory. -/
theorem follow_of_append_void (h : fs.follow here (names ++ [[]]) = .ok (.existing l e)) :
    e = .directory ∧ fs.follow here names = .ok (.existing l .directory) := by
  induction names generalizing here with
  | nil =>
    obtain ⟨hhere, hl⟩ := follow_cons_iff.mp h
    obtain ⟨rfl, he⟩ := follow_nil_iff.mp hl
    have hvoid : next here [] = here := rfl
    rw [hvoid] at he ⊢
    obtain rfl := Option.some.inj (he.symm.trans hhere)
    exact ⟨rfl, follow_nil_iff.mpr ⟨rfl, hhere⟩⟩
  | cons name names ih =>
    obtain ⟨hhere, hnext⟩ := follow_cons_iff.mp h
    obtain ⟨he, hnames⟩ := ih hnext
    exact ⟨he, follow_cons_iff.mpr ⟨hhere, hnames⟩⟩

/-- A path leads where it led when directories stay. -/
theorem KeepsDirectories.follow (hkeeps : KeepsDirectories fs fs')
    (h : fs.follow here names = .ok (.existing l e)) (hl : fs'.at? l = some e') :
    fs'.follow here names = .ok (.existing l e') := by
  induction names generalizing here with
  | nil =>
    obtain ⟨rfl, -⟩ := follow_nil_iff.mp h
    exact follow_nil_iff.mpr ⟨rfl, hl⟩
  | cons name names ih =>
    obtain ⟨hhere, hnext⟩ := follow_cons_iff.mp h
    exact follow_cons_iff.mpr ⟨hkeeps here hhere, ih hnext⟩

/-! ## Names that are missing -/

/-- A path leads to nothing when its last name is not in the directory before. -/
theorem follow_cons_missing {separator : Bool}
    (h : fs.follow here (name :: names) = .ok (.missing l separator)) :
    fs.at? here = some .directory ∧ (fs.follow (next here name) names = .ok (.missing l separator) ∨
      fs.at? l = none ∧ next here name = l ∧ l ≠ [] ∧ onlySeparators names = true ∧
        separator = !names.isEmpty) := by
  have hhere := at?_of_follow_cons h
  refine ⟨hhere, ?_⟩
  rw [follow_cons_directory hhere] at h
  unfold next
  by_cases hvoid : Path.isVoid name = true
  · left
    simpa only [if_pos hvoid] using h
  · by_cases hup : name = ['.', '.']
    · left
      simpa only [if_neg hvoid, if_pos hup] using h
    · simp only [if_neg hvoid, if_neg hup] at h ⊢
      split at h
      · exact Or.inl h
      · rename_i hnext
        split at h
        · rename_i honly
          cases h
          exact Or.inr ⟨by simpa using hnext, rfl, by simp, honly, rfl⟩
        · cases h

/-- Nothing is where a path leads to nothing. -/
theorem at?_of_follow_missing {separator : Bool}
    (h : fs.follow here names = .ok (.missing l separator)) : fs.at? l = none ∧ l ≠ [] := by
  induction names generalizing here with
  | nil =>
    obtain ⟨e, heq, -⟩ := exists_of_follow_nil h
    cases heq
  | cons name names ih =>
    obtain ⟨-, hnext | ⟨hl, -, hroot, -⟩⟩ := follow_cons_missing h
    · exact ih hnext
    · exact ⟨hl, hroot⟩

/-- Separators lead nowhere else. -/
theorem follow_onlySeparators (h : onlySeparators names = true)
    (hl : fs.at? l = some .directory) : fs.follow l names = .ok (.existing l .directory) := by
  induction names with
  | nil => exact follow_nil_iff.mpr ⟨rfl, hl⟩
  | cons name names ih =>
    unfold onlySeparators at h
    rw [List.all_cons, Bool.and_eq_true, beq_iff_eq] at h
    obtain ⟨rfl, hnames⟩ := h
    exact follow_cons_iff.mpr ⟨hl, ih hnames⟩

/-- A path that leads to nothing leads to what is put there, which is a directory if a
    separator follows. -/
theorem follow_put {separator : Bool} (h : fs.follow here names = .ok (.missing l separator))
    (he : separator = true → e = .directory) :
    (fs.put l e).follow here names = .ok (.existing l e) := by
  obtain ⟨hnone, hroot⟩ := at?_of_follow_missing h
  have hkeeps : KeepsDirectories fs (fs.put l e) := .put (by simp [hnone])
  have hl : (fs.put l e).at? l = some e := by
    rw [at?_put fs hroot, if_pos rfl]
  induction names generalizing here with
  | nil =>
    obtain ⟨e, heq, -⟩ := exists_of_follow_nil h
    cases heq
  | cons name names ih =>
    obtain ⟨hhere, hnext | ⟨-, rfl, -, honly, hseparator⟩⟩ := follow_cons_missing h
    · exact follow_cons_iff.mpr ⟨hkeeps here hhere, ih hnext⟩
    · refine follow_cons_iff.mpr ⟨hkeeps here hhere, ?_⟩
      cases names with
      | nil => exact follow_nil_iff.mpr ⟨rfl, hl⟩
      | cons next names =>
        obtain rfl := he hseparator
        exact follow_onlySeparators honly hl

/-! ## Paths -/

/-- Where a path leads, the empty path being the current directory. -/
def walk (fs : FileSystem) (here : Location) (p : Path) : Except FileFault Target :=
  fs.follow (if p.isAbsolute then [] else here) (Text.splitAll '/' p.text.toList)

/-- A path that is not empty leads where its names lead. -/
theorem resolve_eq_walk (fs : FileSystem) (here : Location) (hp : p.text ≠ "") :
    fs.resolve here p = fs.walk here p := by
  rw [resolve, if_neg hp]
  rfl

/-- A path that leads anywhere is not empty. -/
theorem text_ne_of_resolve {t : Target} (h : fs.resolve here p = .ok t) : p.text ≠ "" := by
  intro hp
  rw [resolve, if_pos hp] at h
  cases h

theorem walk_of_resolve {t : Target} (h : fs.resolve here p = .ok t) : fs.walk here p = .ok t :=
  (resolve_eq_walk fs here (text_ne_of_resolve h)).symm.trans h

/-- A directory stays where a path led to it. -/
theorem KeepsDirectories.walk (hkeeps : KeepsDirectories fs fs')
    (h : fs.walk here p = .ok (.existing l .directory)) :
    fs'.walk here p = .ok (.existing l .directory) :=
  hkeeps.follow h (hkeeps l (at?_of_follow h))

/-- A path leads where it led when directories stay. -/
theorem KeepsDirectories.resolve (hkeeps : KeepsDirectories fs fs')
    (h : fs.resolve here p = .ok (.existing l e)) (hl : fs'.at? l = some e') :
    fs'.resolve here p = .ok (.existing l e') := by
  rw [resolve_eq_walk fs' here (text_ne_of_resolve h)]
  exact hkeeps.follow (walk_of_resolve h) hl

/-- A path is a directory when it leads to one. -/
theorem isDirectory_iff :
    fs.isDirectory here p = true ↔ ∃ l, fs.resolve here p = .ok (.existing l .directory) := by
  unfold isDirectory
  constructor
  · intro h
    split at h
    · exact ⟨_, ‹_›⟩
    · cases h
  · intro ⟨l, hl⟩
    rw [hl]

/-- A path stays a directory. -/
theorem KeepsDirectories.isDirectory (hkeeps : KeepsDirectories fs fs')
    (h : fs.isDirectory here p = true) : fs'.isDirectory here p = true := by
  obtain ⟨l, hl⟩ := isDirectory_iff.mp h
  have hdirectory := hkeeps l (at?_of_follow (walk_of_resolve hl))
  exact isDirectory_iff.mpr ⟨l, hkeeps.resolve hl hdirectory⟩

/-- What is at a location in a directory that may hold it or not. -/
def target (fs : FileSystem) (l : Location) : Target :=
  match fs.at? l with
  | some e => .existing l e
  | none => .missing l false

/-- Different locations are different targets. -/
theorem target_injective (fs : FileSystem) : Function.Injective fs.target := by
  intro l l' h
  unfold target at h
  cases hl : fs.at? l with
  | none => cases hl' : fs.at? l' <;> simp_all
  | some e => cases hl' : fs.at? l' <;> simp_all

/-- A name leads to its location in a directory. -/
theorem follow_entryName {text : String} (hname : IsEntryName text)
    (h : fs.follow here names = .ok (.existing l .directory)) :
    fs.follow here (names ++ [text.toList]) = .ok (fs.target (l ++ [text])) := by
  have hl := at?_of_follow h
  rw [follow_append h, follow_cons_directory hl]
  simp only [hname.nonvoid, hname.notUp, Bool.false_eq_true, if_false, String.ofList_toList]
  unfold target
  cases hentry : fs.at? (l ++ [text]) with
  | none => rfl
  | some d =>
    simp only [Option.isSome_some, if_true]
    exact follow_nil_iff.mpr ⟨rfl, hentry⟩

/-- A longer text is as absolute as its start. -/
theorem isAbsolute_append {text rest : String} (h : text ≠ "") :
    Path.isAbsolute ⟨text ++ rest⟩ = Path.isAbsolute ⟨text⟩ := by
  unfold Path.isAbsolute
  rw [String.toList_append, List.head?_append_of_ne_nil _ (by simpa using h)]

/-- A name seen from a directory leads to its location there. -/
theorem resolve_child {text : String} (hname : IsEntryName text)
    (h : fs.walk here p = .ok (.existing l .directory)) :
    fs.resolve here (p.child text) = .ok (fs.target (l ++ [text])) := by
  have hne : text ≠ "" := by
    rintro rfl
    exact absurd hname.nonvoid (by decide)
  have hsplit : Text.splitAll '/' text.toList = [text.toList] :=
    Text.splitAll_eq_self hname.noSeparator
  have hrelative : Path.isAbsolute ⟨text⟩ = false := by
    unfold Path.isAbsolute
    rw [beq_eq_false_iff_ne]
    intro hhead
    exact hname.noSeparator (List.mem_of_mem_head? hhead)
  unfold walk at h
  -- the name may stand alone, after a separator that is there, or after a new one
  by_cases hp : p.text = ""
  · have hchild : p.child text = ⟨text⟩ := by
      simp [Path.child, Path.join, hp]
    have habsolute : p.isAbsolute = false := by
      simp [Path.isAbsolute, hp]
    rw [hp, habsolute, if_neg Bool.false_ne_true] at h
    have hhere : fs.follow here ([] ++ [[]]) = .ok (.existing l .directory) := h
    rw [hchild, resolve_eq_walk fs here hne, walk, hrelative, if_neg Bool.false_ne_true, hsplit]
    exact follow_entryName hname (follow_of_append_void hhere).2
  · by_cases hend : p.text.toList.getLast? = some '/'
    · obtain ⟨cs, hcs⟩ := List.getLast?_eq_some_iff.mp hend
      have hchild : p.child text = ⟨p.text ++ text⟩ := by
        simp [Path.child, Path.join, hp, hend, hrelative]
      rw [hcs, Text.splitAll_append_cons] at h
      rw [hchild, resolve_eq_walk _ _ (by simp [hp]), walk, isAbsolute_append hp,
        String.toList_append, hcs, List.append_assoc, List.singleton_append,
        Text.splitAll_append_cons, hsplit]
      exact follow_entryName hname (follow_of_append_void h).2
    · have hchild : p.child text = ⟨p.text ++ "/" ++ text⟩ := by
        simp [Path.child, Path.join, hp, hend, hrelative]
      rw [hchild, resolve_eq_walk _ _ (by simp [hp]), walk, String.append_assoc,
        isAbsolute_append hp, String.toList_append, String.toList_append]
      show fs.follow _ (Text.splitAll '/' (p.text.toList ++ '/' :: text.toList)) = _
      rw [Text.splitAll_append_cons, hsplit]
      exact follow_entryName hname h

end FileSystem

end RunPlan
