import RunPlan.Proofs.Path
import Mathlib.Data.List.DropRight

/-!
# Paths step by step

Two texts name the same path when they have the same `Path.parts`: repeated separators, a
separator at the end and dots in the middle make no difference. This file says what the
operations on texts do to the parts, so that a path that is put together in two ways can be
compared without its text.

`parts` looks at the start of a text and at the pieces after it. The proofs use that the start
stands for no more than one step (`parts_eq`), and that pieces are cut at any separator
(`steps_append`).

## Key results

- `parts_join`, `parts_child`, `parts_resolve`: paths that are put together
- `parts_parent`, `parent_child`, `fileName_eq_some_iff`: the last step of a path and what is
  before it
- `parts_withFileName`, `parent_withFileName`: a path with another file name
- `parts_resolve_withFileName`: replacing the file name before and after resolving
-/

namespace RunPlan

/-- A name that a directory can hold. -/
structure IsEntryName (name : String) : Prop where
  nonvoid : Path.isVoid name.toList = false
  notUp : name.toList ≠ ['.', '.']
  noSeparator : '/' ∉ name.toList

/-- A name without separators that is not all dots is such a name. -/
theorem isEntryName_of_mem {name : String} {c : Char} (hc : c ∈ name.toList) (hdot : c ≠ '.')
    (hseparator : '/' ∉ name.toList) : IsEntryName name := by
  refine ⟨?_, ?_, hseparator⟩
  · rw [Path.isVoid, Bool.or_eq_false_iff, beq_eq_false_iff_ne, beq_eq_false_iff_ne]
    constructor
    · intro hnil
      simp [hnil] at hc
    · intro hdots
      simp [hdots, hdot] at hc
  · intro hdots
    simp [hdots, hdot] at hc

namespace Path

open Text

variable {p q base : Path} {name other : String} {last : List Char} {before : List (List Char)}

/-! ## The steps that pieces stand for -/

/-- The step that a piece between separators stands for. -/
def partOf (piece : List Char) : Part :=
  if piece = ['.', '.'] then .up else .entry (String.ofList piece)

/-- The steps that pieces stand for, void ones being passed over. -/
def partsOf (pieces : List (List Char)) : List Part :=
  (pieces.filter (!isVoid ·)).map partOf

@[simp] theorem partsOf_nil : partsOf [] = [] := rfl

@[simp] theorem partsOf_append (pieces others : List (List Char)) :
    partsOf (pieces ++ others) = partsOf pieces ++ partsOf others := by
  rw [partsOf, List.filter_append, List.map_append]
  rfl

theorem partsOf_reverse (pieces : List (List Char)) :
    partsOf pieces.reverse = (partsOf pieces).reverse := by
  rw [partsOf, partsOf, List.filter_reverse, List.map_reverse]

theorem partsOf_cons_void {piece : List Char} (h : isVoid piece = true)
    (pieces : List (List Char)) : partsOf (piece :: pieces) = partsOf pieces := by
  simp [partsOf, h]

theorem partsOf_cons {piece : List Char} (h : isVoid piece = false)
    (pieces : List (List Char)) : partsOf (piece :: pieces) = partOf piece :: partsOf pieces := by
  simp [partsOf, h]

/-- Void pieces in front stand for nothing. -/
theorem partsOf_dropWhile (pieces : List (List Char)) :
    partsOf (pieces.dropWhile isVoid) = partsOf pieces := by
  induction pieces with
  | nil => rfl
  | cons piece pieces ih =>
    by_cases hvoid : isVoid piece = true
    · rw [List.dropWhile_cons_of_pos hvoid, ih, partsOf_cons_void hvoid]
    · rw [List.dropWhile_cons_of_neg hvoid]

/-- A piece stands for a name or the way up. -/
theorem partOf_ne (piece : List Char) : partOf piece ≠ .root ∧ partOf piece ≠ .current := by
  unfold partOf
  split <;> simp

/-! ## The start of a path -/

/-- The step that the start of a path stands for. -/
def headParts (front : List Char) : List Part :=
  match front with
  | ['/'] => [.root]
  | ['.'] => [.current]
  | _ => []

/-- The steps of a path after its start. -/
def steps (p : Path) : List Part :=
  partsOf (splitAll '/' p.text.toList)

/-- The start of a path and what it is followed by. -/
theorem front_cases (p : Path) :
    (∃ cs, p.text.toList = '/' :: cs ∧ p.front = ['/']) ∨
      ((p.text.toList = ['.'] ∨ ∃ cs, p.text.toList = '.' :: '/' :: cs) ∧ p.front = ['.']) ∨
      p.text.toList.head? ≠ some '/' ∧ p.front = [] := by
  unfold front
  split
  · rename_i cs h
    exact Or.inl ⟨cs, h, rfl⟩
  · rename_i h
    exact Or.inr (Or.inl ⟨Or.inl h, rfl⟩)
  · rename_i cs h
    exact Or.inr (Or.inl ⟨Or.inr ⟨cs, h⟩, rfl⟩)
  · rename_i hroot _ _
    refine Or.inr (Or.inr ⟨fun h => ?_, rfl⟩)
    obtain ⟨cs, hcs⟩ := List.head?_eq_some_iff.mp h
    exact hroot cs hcs

/-- A path whose text goes on at a separator has the same start. -/
theorem front_append {rest : List Char} (hne : p.text.toList ≠ [])
    (hq : q.text.toList = p.text.toList ++ rest)
    (hseparator : p.text.toList.getLast? = some '/' ∨ rest.head? = some '/') :
    q.front = p.front := by
  unfold front
  rw [hq]
  match hp : p.text.toList with
  | [] => exact absurd hp hne
  | c :: d :: cs =>
    -- the first two characters decide
    simp only [List.cons_append]
    split <;> simp_all
  | [c] =>
    rw [hp] at hseparator
    rcases hseparator with hc | hrest
    · obtain rfl : c = '/' := by simpa using hc
      rfl
    · obtain ⟨ds, rfl⟩ := List.head?_eq_some_iff.mp hrest
      simp only [List.cons_append, List.nil_append]
      split <;> simp_all

/-- The pieces after the start stand for the same steps as all pieces. -/
theorem partsOf_drop_front (p : Path) :
    partsOf (splitAll '/' (p.text.toList.drop p.front.length)) = p.steps := by
  unfold steps
  rcases front_cases p with ⟨cs, htext, hfront⟩ | ⟨htext | ⟨cs, htext⟩, hfront⟩ | ⟨-, hfront⟩
  · rw [htext, hfront, splitAll, if_pos rfl, partsOf_cons_void rfl]
    rfl
  · rw [htext, hfront]
    rfl
  · -- both the leading dot and what is left in front of the separator are void
    have hdot : '/' ∉ ['.'] := by decide
    have hsplit : splitAll '/' ('.' :: '/' :: cs) = ['.'] :: splitAll '/' cs :=
      splitAll_append hdot cs
    rw [htext, hfront, hsplit, partsOf_cons_void rfl]
    show partsOf (splitAll '/' ('/' :: cs)) = _
    rw [splitAll, if_pos rfl, partsOf_cons_void rfl]
  · rw [hfront]
    rfl

/-- The pieces without void ones at the end stand for the same steps as all pieces. -/
theorem partsOf_piecesBack (p : Path) : partsOf p.piecesBack.reverse = p.steps := by
  rw [partsOf_reverse, piecesBack, partsOf_dropWhile, partsOf_reverse, List.reverse_reverse,
    partsOf_drop_front]

/-- A path is its start followed by its steps. -/
theorem parts_eq (p : Path) : p.parts = headParts p.front ++ p.steps := by
  rw [← partsOf_piecesBack]
  rfl

/-- Only the start of a path stands for the root. -/
theorem root_notMem_steps (p : Path) : Part.root ∉ p.steps := by
  intro hroot
  obtain ⟨piece, -, hpiece⟩ := List.mem_map.mp hroot
  exact (partOf_ne piece).1 hpiece

/-- A path is absolute when its first step is the root. -/
theorem isAbsolute_iff : p.isAbsolute = true ↔ p.parts.head? = some .root := by
  rw [isAbsolute, beq_iff_eq, parts_eq]
  rcases front_cases p with ⟨cs, htext, hfront⟩ | ⟨htext | ⟨cs, htext⟩, hfront⟩ | ⟨htext, hfront⟩
  · simp [htext, hfront, headParts]
  · simp [htext, hfront, headParts]
  · simp [htext, hfront, headParts]
  · have hhead : p.steps.head? ≠ some .root :=
      fun h => root_notMem_steps p (List.mem_of_mem_head? h)
    simp [htext, hfront, headParts, hhead]

/-- The steps of a relative path are its parts without a leading dot. -/
theorem steps_eq_filter (h : p.isAbsolute = false) : p.steps = p.parts.filter (· ≠ .current) := by
  have hsteps : p.steps.filter (· ≠ .current) = p.steps := by
    rw [List.filter_eq_self]
    intro part hpart
    obtain ⟨piece, -, rfl⟩ := List.mem_map.mp hpart
    exact decide_eq_true (partOf_ne piece).2
  have hhead : (headParts p.front).filter (· ≠ .current) = [] := by
    rcases front_cases p with ⟨cs, htext, -⟩ | ⟨-, hfront⟩ | ⟨-, hfront⟩
    · simp [isAbsolute, htext] at h
    · rw [hfront]
      rfl
    · rw [hfront]
      rfl
  rw [parts_eq, List.filter_append, hhead, hsteps, List.nil_append]

/-! ## Joining -/

/-- The steps on both sides of a separator. -/
theorem steps_append {cs ds : List Char} (h : p.text.toList = cs ++ '/' :: ds) :
    p.steps = partsOf (splitAll '/' cs) ++ partsOf (splitAll '/' ds) := by
  rw [steps, h, splitAll_append_cons, partsOf_append]

/-- A relative path that is joined to another one adds its steps. -/
theorem parts_join (hp : p.isAbsolute = false) (hbase : base.text ≠ "") :
    (base.join p).parts = base.parts ++ p.steps := by
  have hne : base.text.toList ≠ [] := fun hnil => hbase (String.toList_inj.mp hnil)
  have hcond : ¬(p.isAbsolute = true ∨ base.text = "") := by simp [hp, hbase]
  unfold join
  rw [if_neg hcond]
  by_cases hlast : base.text.toList.getLast? = some '/'
  · -- the separator is there already, with nothing after it in the base
    obtain ⟨cs, hcs⟩ := List.getLast?_eq_some_iff.mp hlast
    have htext : (base.text ++ p.text).toList = base.text.toList ++ p.text.toList :=
      String.toList_append
    have hsteps : (⟨base.text ++ p.text⟩ : Path).steps = base.steps ++ p.steps := by
      rw [steps_append (htext.trans (by rw [hcs, List.append_assoc]; rfl)), steps_append hcs]
      simp [splitAll, partsOf_cons_void, isVoid, steps]
    rw [if_pos hlast, parts_eq, parts_eq base, front_append hne htext (Or.inl hlast), hsteps,
      List.append_assoc]
  · have htext : (base.text ++ "/" ++ p.text).toList =
        base.text.toList ++ '/' :: p.text.toList := by
      simp
    have hsteps : (⟨base.text ++ "/" ++ p.text⟩ : Path).steps = base.steps ++ p.steps :=
      steps_append htext
    rw [if_neg hlast, parts_eq, parts_eq base, front_append hne htext (Or.inr rfl), hsteps,
      List.append_assoc]

/-- A name stands for no start of a path. -/
theorem front_entryName (h : IsEntryName name) : (⟨name⟩ : Path).front = [] := by
  rcases front_cases ⟨name⟩ with ⟨cs, htext, -⟩ | ⟨htext | ⟨cs, htext⟩, -⟩ | ⟨-, hfront⟩
  · exact absurd (show '/' ∈ name.toList from htext ▸ List.mem_cons_self) h.noSeparator
  · have hvoid := h.nonvoid
    rw [show name.toList = ['.'] from htext] at hvoid
    cases hvoid
  · exact absurd (show '/' ∈ name.toList by rw [show name.toList = _ from htext]; simp)
      h.noSeparator
  · exact hfront

/-- A name is a path of one step. -/
theorem parts_entryName (h : IsEntryName name) :
    (⟨name⟩ : Path).parts = [.entry name] ∧ (⟨name⟩ : Path).steps = [.entry name] := by
  have hsteps : (⟨name⟩ : Path).steps = [.entry name] := by
    rw [steps, splitAll_eq_self h.noSeparator, partsOf_cons h.nonvoid, partOf, if_neg h.notUp,
      String.ofList_toList]
    rfl
  rw [parts_eq, front_entryName h, hsteps]
  exact ⟨rfl, rfl⟩

/-- A name is no absolute path. -/
theorem isAbsolute_entryName (h : IsEntryName name) : (⟨name⟩ : Path).isAbsolute = false := by
  rw [isAbsolute, beq_eq_false_iff_ne]
  intro hhead
  exact h.noSeparator (List.mem_of_mem_head? hhead)

/-- A name that is appended becomes the last step. -/
theorem parts_child (h : IsEntryName name) (base : Path) :
    (base.child name).parts = base.parts ++ [.entry name] := by
  obtain ⟨hparts, hsteps⟩ := parts_entryName h
  by_cases hbase : base.text = ""
  · obtain rfl : base = ⟨""⟩ := congrArg Path.mk hbase
    rw [child, join, if_pos (Or.inr rfl), hparts]
    rfl
  · rw [child, parts_join (isAbsolute_entryName h) hbase, hsteps]

/-! ## Parents and file names -/

/-- Void pieces at the end have been dropped. -/
theorem isVoid_of_piecesBack (h : p.piecesBack = last :: before) : isVoid last = false := by
  have hhead := List.head?_dropWhile_not isVoid
    (splitAll '/' (p.text.toList.drop p.front.length)).reverse
  rw [show List.dropWhile isVoid _ = last :: before from h] at hhead
  simpa using hhead

/-- The file name of a path can stand in a directory, and the path has a parent then. -/
theorem isEntryName_of_fileName (h : p.fileName = some name) :
    IsEntryName name ∧ ∃ parent, p.parent = some parent := by
  unfold fileName at h
  cases hpieces : p.piecesBack with
  | nil => simp [hpieces] at h
  | cons last before =>
    rw [hpieces] at h
    by_cases hup : last = ['.', '.']
    · simp [hup] at h
    · simp only [if_neg hup, Option.some.injEq] at h
      subst h
      have hlast : last ∈ p.piecesBack := by simp [hpieces]
      have hsplit := List.mem_reverse.mp ((List.dropWhile_suffix _).subset hlast)
      refine ⟨⟨?_, ?_, ?_⟩, ofPieces p.front before, by rw [parent, hpieces]⟩
      · rw [String.toList_ofList]
        exact isVoid_of_piecesBack hpieces
      · simpa using hup
      · simpa using separator_notMem_splitAll hsplit

/-- The last piece of a path stands for its last step. -/
theorem parts_eq_of_piecesBack (h : p.piecesBack = last :: before) :
    p.parts = headParts p.front ++ partsOf before.reverse ++ [partOf last] := by
  rw [parts_eq, ← partsOf_piecesBack, h, List.reverse_cons, partsOf_append,
    partsOf_cons (isVoid_of_piecesBack h), partsOf_nil, List.append_assoc]

/-- A text is its start and what follows it. -/
theorem front_append_drop (p : Path) :
    p.front ++ p.text.toList.drop p.front.length = p.text.toList := by
  rcases front_cases p with ⟨cs, htext, hfront⟩ | ⟨htext | ⟨cs, htext⟩, hfront⟩ | ⟨-, hfront⟩
  · rw [htext, hfront]
    rfl
  · rw [htext, hfront]
    rfl
  · rw [htext, hfront]
    rfl
  · rw [hfront]
    rfl

/-- The pieces of a path are those that its parent keeps and others. -/
private theorem exists_pieces_eq (h : p.piecesBack = last :: before) :
    ∃ rest ≠ [], splitAll '/' (p.text.toList.drop p.front.length) =
      (before.dropWhile isVoid).reverse ++ rest := by
  have hback := List.takeWhile_append_dropWhile (p := isVoid)
    (l := (splitAll '/' (p.text.toList.drop p.front.length)).reverse)
  rw [show List.dropWhile isVoid _ = last :: before from h] at hback
  have hbefore := List.takeWhile_append_dropWhile (p := isVoid) (l := before)
  generalize List.takeWhile isVoid (splitAll _ _).reverse = void at hback
  refine ⟨(before.takeWhile isVoid).reverse ++ last :: void.reverse, by simp, ?_⟩
  rw [← List.append_assoc, ← List.reverse_append, hbefore]
  simpa using (congrArg List.reverse hback).symm

/-- The path of the pieces before the last one has the same start, and these pieces without void
    ones at the end. -/
theorem pieces_ofPieces (h : p.piecesBack = last :: before) :
    (ofPieces p.front before).front = p.front ∧
      (ofPieces p.front before).piecesBack = before.dropWhile isVoid := by
  obtain ⟨rest, hrest, hpieces⟩ := exists_pieces_eq h
  have hidem : (before.dropWhile isVoid).dropWhile isVoid = before.dropWhile isVoid :=
    List.dropWhile_idempotent isVoid before
  have htext : (ofPieces p.front before).text.toList =
      p.front ++ ['/'].intercalate (before.dropWhile isVoid).reverse := String.toList_ofList
  generalize ofPieces p.front before = q at htext ⊢
  by_cases hkept : before.dropWhile isVoid = []
  · rw [hkept, List.reverse_nil, List.intercalate_nil, List.append_nil] at htext
    have hfront : q.front = p.front := by
      rcases front_cases p with ⟨-, -, hfront⟩ | ⟨-, hfront⟩ | ⟨-, hfront⟩ <;>
      · rw [hfront] at htext ⊢
        simp [front, htext]
    rw [piecesBack, hfront, htext, List.drop_length, hkept]
    exact ⟨rfl, rfl⟩
  · -- the path goes on at a separator after the text of its parent
    have hlonger : p.text.toList = q.text.toList ++ '/' :: ['/'].intercalate rest := by
      rw [← front_append_drop p, ← intercalate_splitAll '/' (List.drop _ _), hpieces,
        intercalate_append _ (by simpa using hkept) hrest, htext]
      simp
    have hfront : p.front = q.front := by
      apply front_append _ hlonger (Or.inr rfl)
      intro hnil
      rcases front_cases p with ⟨cs, -, hfront⟩ | ⟨-, hfront⟩ | ⟨hroot, -⟩
      · simp [hnil, hfront] at htext
      · simp [hnil, hfront] at htext
      · simp [hlonger, hnil] at hroot
    have hsplit : splitAll '/' (['/'].intercalate (before.dropWhile isVoid).reverse) =
        (before.dropWhile isVoid).reverse := by
      apply splitAll_intercalate (by simpa using hkept)
      intro piece hpiece
      exact separator_notMem_splitAll (hpieces ▸ List.mem_append_left rest hpiece)
    refine ⟨hfront.symm, ?_⟩
    rw [piecesBack, htext, ← hfront, List.drop_left, hsplit, List.reverse_reverse, hidem]

/-- The path of the pieces before the last one. -/
theorem parts_ofPieces (h : p.piecesBack = last :: before) :
    (ofPieces p.front before).parts = headParts p.front ++ partsOf before.reverse := by
  obtain ⟨hfront, hpieces⟩ := pieces_ofPieces h
  rw [parts_eq, ← partsOf_piecesBack, hfront, hpieces, partsOf_reverse, partsOf_dropWhile,
    ← partsOf_reverse]

/-- The parent of a path lacks its last step. -/
theorem parts_parent (h : p.parent = some q) : q.parts = p.parts.dropLast := by
  unfold parent at h
  split at h
  · rename_i last before hpieces
    obtain rfl : ofPieces p.front before = q := Option.some.inj h
    rw [parts_eq_of_piecesBack hpieces, List.dropLast_concat, parts_ofPieces hpieces]
  · rename_i hpieces
    split at h
    · rename_i hfront
      obtain rfl : (⟨""⟩ : Path) = q := Option.some.inj h
      rw [parts_eq p, ← partsOf_piecesBack, hpieces, hfront]
      rfl
    · cases h

/-- The pieces of a path whose text goes on at a separator. -/
theorem piecesBack_append {rest : List Char} (hne : p.text.toList ≠ [])
    (hq : q.text.toList = p.text.toList ++ rest)
    (hseparator : p.text.toList.getLast? = some '/' ∨ rest.head? = some '/') :
    q.piecesBack =
      (splitAll '/' (p.text.toList.drop p.front.length ++ rest)).reverse.dropWhile isVoid := by
  have hlength : p.front.length ≤ p.text.toList.length := by
    have := congrArg List.length (front_append_drop p)
    rw [List.length_append] at this
    omega
  rw [piecesBack, front_append hne hq hseparator, hq, List.drop_append_of_le_length hlength]

/-- A name is a piece of its own. -/
theorem dropWhile_splitAll_entryName (h : IsEntryName name) :
    (splitAll '/' name.toList).reverse.dropWhile isVoid = [name.toList] := by
  rw [splitAll_eq_self h.noSeparator, List.reverse_singleton,
    List.dropWhile_cons_of_neg (by simp [h.nonvoid])]

/-- A name is the last piece where it stands at the end. -/
theorem dropWhile_splitAll_append (h : IsEntryName name) (cs : List Char) :
    (splitAll '/' (cs ++ '/' :: name.toList)).reverse.dropWhile isVoid =
      name.toList :: (splitAll '/' cs).reverse := by
  rw [splitAll_append_cons, splitAll_eq_self h.noSeparator, List.reverse_concat,
    List.dropWhile_cons_of_neg (by simp [h.nonvoid])]

/-- A name is appended after a separator. -/
theorem toList_child (h : IsEntryName name) (hbase : base.text ≠ "") :
    (base.child name).text.toList = base.text.toList ++
      if base.text.toList.getLast? = some '/' then name.toList else '/' :: name.toList := by
  have hcond : ¬((⟨name⟩ : Path).isAbsolute = true ∨ base.text = "") := by
    simp [isAbsolute_entryName h, hbase]
  rw [child, join, if_neg hcond]
  split
  · exact String.toList_append
  · simp

/-- The start and the pieces of a path that a name is appended to. -/
theorem pieces_child (h : IsEntryName name) (base : Path) :
    (base.child name).front = base.front ∧
      ∃ before, (base.child name).piecesBack = name.toList :: before ∧
        before.dropWhile isVoid = base.piecesBack := by
  by_cases hbase : base.text = ""
  · obtain rfl : base = ⟨""⟩ := congrArg Path.mk hbase
    rw [child, join, if_pos (Or.inr rfl), piecesBack, front_entryName h]
    exact ⟨rfl, [], dropWhile_splitAll_entryName h, rfl⟩
  have hne : base.text.toList ≠ [] := fun hnil => hbase (String.toList_inj.mp hnil)
  have htext := toList_child h hbase
  by_cases hend : base.text.toList.getLast? = some '/'
  · rw [if_pos hend] at htext
    refine ⟨front_append hne htext (Or.inl hend), ?_⟩
    have hpieces := piecesBack_append hne htext (Or.inl hend)
    have hstart := front_append_drop base
    rw [hpieces, piecesBack]
    -- the separator is all of the start, or stands at the end of what follows it
    rcases List.eq_nil_or_concat (base.text.toList.drop base.front.length) with hnil | ⟨cs, c, hcs⟩
    · rw [hnil]
      exact ⟨[], dropWhile_splitAll_entryName h, rfl⟩
    · rw [List.concat_eq_append] at hcs
      obtain rfl : c = '/' := by
        rw [← hstart, hcs, ← List.append_assoc, List.getLast?_concat] at hend
        exact Option.some.inj hend
      rw [hcs, List.append_assoc]
      refine ⟨(splitAll '/' cs).reverse, dropWhile_splitAll_append h cs, ?_⟩
      rw [splitAll_append_cons, List.reverse_append]
      rfl
  · rw [if_neg hend] at htext
    have hpieces := piecesBack_append hne htext (Or.inr rfl)
    exact ⟨front_append hne htext (Or.inr rfl), _,
      hpieces.trans (dropWhile_splitAll_append h _), rfl⟩

/-- The parent of a path that a name is appended to is that path, without what is passed over at
    its end. -/
theorem parent_child (h : IsEntryName name) (base : Path) :
    (base.child name).parent = some (ofPieces base.front base.piecesBack) := by
  obtain ⟨hfront, before, hpieces, hbefore⟩ := pieces_child h base
  rw [parent, hpieces, hfront]
  show some (ofPieces base.front before) = _
  rw [ofPieces, ofPieces, ← hbefore, List.dropWhile_idempotent]

/-- The file name of a path is its last step, when that is a name. -/
theorem fileName_eq_some_iff : p.fileName = some name ↔ p.parts.getLast? = some (.entry name) := by
  unfold fileName
  cases hpieces : p.piecesBack with
  | nil =>
    rw [parts_eq, ← partsOf_piecesBack, hpieces, List.reverse_nil, partsOf_nil, List.append_nil]
    rcases front_cases p with ⟨-, -, hfront⟩ | ⟨-, hfront⟩ | ⟨-, hfront⟩ <;>
      simp [hfront, headParts]
  | cons last before =>
    rw [parts_eq_of_piecesBack hpieces, List.getLast?_concat, partOf]
    by_cases hup : last = ['.', '.'] <;> simp [hup]

/-- Paths of the same steps have the same file name. -/
theorem fileName_congr (h : p.parts = q.parts) : p.fileName = q.fileName := by
  apply Option.ext
  intro name
  rw [fileName_eq_some_iff, fileName_eq_some_iff, h]

/-- The steps of a path with a file name. -/
theorem parts_of_fileName (h : p.fileName = some name) :
    p.parts = p.parts.dropLast ++ [.entry name] := by
  obtain ⟨parts, hparts⟩ := List.getLast?_eq_some_iff.mp (fileName_eq_some_iff.mp h)
  rw [hparts, List.dropLast_concat]

/-- A path with another file name differs in its last step. -/
theorem parts_withFileName (hother : IsEntryName other) (h : p.fileName = some name) :
    (p.withFileName other).parts = p.parts.dropLast ++ [.entry other] := by
  obtain ⟨-, parent, hparent⟩ := isEntryName_of_fileName h
  unfold withFileName
  rw [h, hparent]
  show (parent.child other).parts = _
  rw [parts_child hother, parts_parent hparent]

/-- The file name of a path that is given another one. -/
theorem fileName_withFileName (hother : IsEntryName other) (h : p.fileName = some name) :
    (p.withFileName other).fileName = some other := by
  rw [fileName_eq_some_iff, parts_withFileName hother h]
  exact List.getLast?_concat

/-- A path with another file name has the same parent, to the letter. -/
theorem parent_withFileName (hother : IsEntryName other) (h : p.fileName = some name) :
    (p.withFileName other).parent = p.parent := by
  obtain ⟨-, parent, hparent⟩ := isEntryName_of_fileName h
  have hchild : p.withFileName other = parent.child other := by
    rw [withFileName, h, hparent]
  unfold fileName at h
  cases hpieces : p.piecesBack with
  | nil => simp [hpieces] at h
  | cons last before =>
    obtain rfl : ofPieces p.front before = parent := by
      rw [Path.parent, hpieces] at hparent
      exact Option.some.inj hparent
    obtain ⟨hfront, hback⟩ := pieces_ofPieces hpieces
    rw [hchild, parent_child hother, hfront, hback, Path.parent, hpieces, ofPieces,
      List.dropWhile_idempotent]
    rfl

/-- Another file name makes no path absolute or relative. -/
theorem isAbsolute_withFileName (hother : IsEntryName other) (h : p.fileName = some name) :
    (p.withFileName other).isAbsolute = p.isAbsolute := by
  have hhead (x : String) : (p.parts.dropLast ++ [Part.entry x]).head? = some .root ↔
      p.parts.dropLast.head? = some .root := by
    cases p.parts.dropLast <;> simp
  rw [Bool.eq_iff_iff, isAbsolute_iff, isAbsolute_iff, parts_withFileName hother h,
    parts_of_fileName h, List.dropLast_concat, hhead, hhead]

/-! ## Resolving -/

/-- Where a path leads from a directory. -/
theorem parts_resolve (base p : Path) :
    (base.resolve p).parts =
      if p.isAbsolute = true ∨ base.text = "" then p.parts
      else base.parts ++ p.parts.filter (· ≠ .current) := by
  unfold resolve
  by_cases habsolute : p.isAbsolute = true
  · rw [if_pos habsolute, if_pos (Or.inl habsolute)]
  rw [if_neg habsolute]
  by_cases hbase : base.text = ""
  · rw [join, if_pos (Or.inr hbase), if_pos (Or.inr hbase)]
  · have hrelative : p.isAbsolute = false := by simpa using habsolute
    rw [parts_join hrelative hbase, if_neg (not_or_intro habsolute hbase),
      steps_eq_filter hrelative]

/-- Resolving keeps the file name. -/
theorem fileName_resolve (h : p.fileName = some name) (base : Path) :
    (base.resolve p).fileName = some name := by
  rw [fileName_eq_some_iff, parts_resolve]
  split
  · exact fileName_eq_some_iff.mp h
  · rw [parts_of_fileName h, List.filter_append, ← List.append_assoc]
    exact List.getLast?_concat

/-- A file next to another one is resolved with it. -/
theorem parts_resolve_withFileName (hother : IsEntryName other) (h : p.fileName = some name)
    (base : Path) :
    ((base.resolve p).withFileName other).parts =
      (base.resolve (p.withFileName other)).parts := by
  rw [parts_withFileName hother (fileName_resolve h base), parts_resolve, parts_resolve,
    isAbsolute_withFileName hother h, parts_withFileName hother h]
  split
  · rfl
  · rw [parts_of_fileName h, List.dropLast_concat, List.filter_append, List.filter_append,
      ← List.append_assoc, ← List.append_assoc]
    exact congrArg (· ++ _) (List.dropLast_concat)

end Path

end RunPlan
