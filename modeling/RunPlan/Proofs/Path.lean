import RunPlan.Path
import RunPlan.Proofs.Text

/-!
# Paths: what their characters are

The lexical operations on paths take texts apart at separators and put them together
again, so every character of a result other than `/` and `.` comes from an argument.

## Key results

- `mem_of_parent`, `mem_of_fileName`, `mem_of_extension`: parts of a path
- `splitName_append`, `splitName_cases`: where a name is split
- `mem_join`, `mem_withFileName`, `mem_resolve_iff`: paths put together
-/

namespace RunPlan.Path

open Text

variable {c : Char} {p : Path}

/-! ## Taking apart -/

/-- A piece between separators is a part of the text. -/
private theorem mem_of_mem_splitAll {separator : Char} {cs piece : List Char}
    (hpiece : piece ∈ splitAll separator cs) (hc : c ∈ piece) : c ∈ cs := by
  have hne : c ≠ separator := by
    rintro rfl
    exact separator_notMem_splitAll hpiece hc
  exact (mem_splitAll_iff hne).mp ⟨piece, hpiece, hc⟩

/-- The start of a path is a part of it. -/
theorem mem_of_mem_front (h : c ∈ p.front) : c ∈ p.text.toList := by
  rw [front] at h
  split at h <;> simp_all

/-- The pieces of a path are parts of it. -/
theorem mem_of_mem_piecesBack {piece : List Char} (hpiece : piece ∈ p.piecesBack)
    (hc : c ∈ piece) : c ∈ p.text.toList := by
  have hsplit := List.mem_reverse.mp ((List.dropWhile_suffix _).subset hpiece)
  exact List.mem_of_mem_drop (mem_of_mem_splitAll hsplit hc)

/-- The file name is a part of the path. -/
theorem mem_of_fileName {name : String} (h : p.fileName = some name) (hc : c ∈ name.toList) :
    c ∈ p.text.toList := by
  rw [fileName] at h
  split at h
  · rename_i last before hpieces
    split at h
    · simp at h
    · obtain rfl : String.ofList last = name := by simpa using h
      rw [String.toList_ofList] at hc
      exact mem_of_mem_piecesBack (hpieces ▸ List.mem_cons_self) hc
  · simp at h

/-- Characters before a dot are passed over. -/
private theorem takeWhile_ne_dot {cs : List Char} (h : '.' ∉ cs) (rest : List Char) :
    (cs ++ rest).takeWhile (· ≠ '.') = cs ++ rest.takeWhile (· ≠ '.') := by
  apply List.takeWhile_append_of_pos
  intro c hc
  rw [decide_eq_true_iff]
  rintro rfl
  exact h hc

/-- The last dot of a name is where it can be split. -/
private theorem splitName_of_last {name : String} {cs ds : List Char}
    (h : name.toList = cs ++ '.' :: ds) (hds : '.' ∉ ds) :
    splitName name =
      if cs = [] then (name, none) else (String.ofList cs, some (String.ofList ds)) := by
  have hback : name.toList.reverse = ds.reverse ++ '.' :: cs.reverse := by simp [h]
  have hending : name.toList.reverse.takeWhile (· ≠ '.') = ds.reverse := by
    rw [hback, takeWhile_ne_dot (by simpa using hds), List.takeWhile_cons_of_neg (by decide),
      List.append_nil]
  have hstem : name.toList.reverse.drop (ds.reverse.length + 1) = cs.reverse := by
    rw [hback, List.drop_length_add_append]
    rfl
  unfold splitName
  simp only [hending, hstem, List.reverse_reverse]

/-- A name that does not start with its last dot is split there. -/
theorem splitName_append {stem ending : String} (hstem : stem ≠ "")
    (hending : '.' ∉ ending.toList) :
    splitName (stem ++ "." ++ ending) = (stem, some ending) := by
  have htext : (stem ++ "." ++ ending).toList = stem.toList ++ '.' :: ending.toList := by simp
  rw [splitName_of_last htext hending, if_neg (by simpa using hstem), String.ofList_toList,
    String.ofList_toList]

/-- A name is split at its last dot or not at all. -/
theorem splitName_cases (name : String) :
    splitName name = (name, none) ∨
      ∃ stem ending, stem ≠ "" ∧ '.' ∉ ending.toList ∧ name = stem ++ "." ++ ending ∧
        splitName name = (stem, some ending) := by
  by_cases hdot : '.' ∈ name.toList
  · obtain ⟨es, bs, hback, hes⟩ := List.eq_append_cons_of_mem (List.mem_reverse.mpr hdot)
    have hname : name.toList = bs.reverse ++ '.' :: es.reverse := by
      simpa using congrArg List.reverse hback
    rw [splitName_of_last hname (by simpa using hes)]
    by_cases hbs : bs = []
    · left
      rw [if_pos (by simpa using hbs)]
    · right
      refine ⟨.ofList bs.reverse, .ofList es.reverse, by simpa using hbs, by simpa using hes, ?_,
        if_neg (by simpa using hbs)⟩
      rw [← String.toList_inj, hname]
      simp
  · left
    have hending := takeWhile_ne_dot (fun h => hdot (List.mem_reverse.mp h)) []
    rw [List.append_nil, List.takeWhile_nil, List.append_nil] at hending
    have hstem : name.toList.reverse.drop (name.toList.reverse.length + 1) = [] :=
      List.drop_eq_nil_of_le (Nat.le_succ _)
    unfold splitName
    simp only [hending, hstem, List.reverse_nil, if_true]

/-- Both sides of a split name are parts of it. -/
theorem mem_of_splitName {name : String} :
    (c ∈ (splitName name).1.toList → c ∈ name.toList) ∧
      ∀ e ∈ (splitName name).2, c ∈ e.toList → c ∈ name.toList := by
  rcases splitName_cases name with h | ⟨stem, ending, -, -, hname, h⟩
  · simp [h]
  · rw [h, hname]
    simp +contextual

/-- The stem is a part of the path. -/
theorem mem_of_stem {s : String} (h : p.stem = some s) (hc : c ∈ s.toList) :
    c ∈ p.text.toList := by
  obtain ⟨name, hname, rfl⟩ := Option.map_eq_some_iff.mp h
  exact mem_of_fileName hname (mem_of_splitName.1 hc)

/-- The extension is a part of the path. -/
theorem mem_of_extension {e : String} (h : p.extension = some e) (hc : c ∈ e.toList) :
    c ∈ p.text.toList := by
  obtain ⟨name, hname, he⟩ := Option.bind_eq_some_iff.mp h
  exact mem_of_fileName hname (mem_of_splitName.2 e he hc)

/-- The characters of a parent are separators or come from the path. -/
theorem mem_of_parent {parent : Path} (h : p.parent = some parent)
    (hc : c ∈ parent.text.toList) : c = '/' ∨ c ∈ p.text.toList := by
  rw [Path.parent] at h
  split at h
  · rename_i last before hpieces
    obtain rfl : ofPieces p.front before = parent := by simpa using h
    rw [ofPieces, String.toList_ofList, List.mem_append] at hc
    rcases hc with hc | hc
    · exact Or.inr (mem_of_mem_front hc)
    · rcases mem_intercalate hc with hc | ⟨piece, hpiece, hc⟩
      · exact Or.inl (List.mem_singleton.mp hc)
      · right
        have hback : piece ∈ p.piecesBack := by
          rw [hpieces]
          exact List.mem_cons_of_mem _
            ((List.dropWhile_suffix _).subset (List.mem_reverse.mp hpiece))
        exact mem_of_mem_piecesBack hback hc
  · split at h
    · obtain rfl : (⟨""⟩ : Path) = parent := by simpa using h
      simp at hc
    · simp at h

/-! ## Putting together -/

/-- The characters of a joined path. -/
theorem mem_join {base : Path} (h : c ∈ (base.join p).text.toList) :
    c = '/' ∨ c ∈ base.text.toList ∨ c ∈ p.text.toList := by
  rw [join] at h
  split at h
  · exact Or.inr (Or.inr h)
  split at h
  · rw [String.toList_append, List.mem_append] at h
    exact Or.inr h
  · simp only [String.toList_append, List.mem_append] at h
    rcases h with (h | h) | h
    · exact Or.inr (Or.inl h)
    · exact Or.inl (by simpa using h)
    · exact Or.inr (Or.inr h)

/-- The characters of a path with another file name. -/
theorem mem_withFileName {name : String} (h : c ∈ (p.withFileName name).text.toList) :
    c = '/' ∨ c ∈ p.text.toList ∨ c ∈ name.toList := by
  rw [withFileName] at h
  split at h
  · rename_i parent _ hparent
    rcases mem_join h with hc | hc | hc
    · exact Or.inl hc
    · exact (mem_of_parent hparent hc).imp_right Or.inl
    · exact Or.inr (Or.inr hc)
  · exact mem_join h

/-- The characters of a path that is seen from a directory. -/
theorem mem_resolve_iff {base : Path} (hc : c ≠ '/') :
    c ∈ (base.resolve p).text.toList ↔
      c ∈ p.text.toList ∨ p.isAbsolute = false ∧ c ∈ base.text.toList := by
  unfold resolve
  by_cases habsolute : p.isAbsolute = true
  · simp [habsolute]
  · rw [if_neg habsolute, join]
    split
    · rename_i hjoin
      have hbase : base.text = "" := hjoin.resolve_left habsolute
      simp [hbase]
    split
    · simp [habsolute, or_comm]
    · simp [habsolute, hc, or_comm]

end RunPlan.Path
