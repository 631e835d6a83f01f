import RunPlan.Text.Basic
import Mathlib.Data.List.Basic

/-!
# Texts: trimming, splitting, lines

How the functions of `RunPlan.Text` act on texts that are already in the form they
produce, and which characters their results can hold.

## Key results

- `trim_eq_self`: a text with no white space at its ends is trimmed already
- `head_trim`, `last_trim`: a trimmed text has no white space at its ends
- `splitOnce_eq_some_iff`, `splitAll_intercalate`: splitting at a separator undoes putting it in
- `splitLines_unlines`: lines without line feeds come back from their text
- `mem_of_mem_trim` and its like: no operation invents characters
-/

namespace RunPlan.Text

/-! ## Trimming -/

/-- Trimming leaves a text alone that neither starts nor ends with white space. -/
theorem trim_eq_self {cs : List Char} (hfirst : ∀ c ∈ cs.head?, isWhitespace c = false)
    (hlast : ∀ c ∈ cs.getLast?, isWhitespace c = false) : trim cs = cs := by
  have hstart : trimStart cs = cs := by
    cases cs with
    | nil => rfl
    | cons c cs => simp [trimStart, hfirst c rfl]
  rw [trim, hstart, trimEnd]
  cases hrev : cs.reverse with
  | nil => simp [List.reverse_eq_nil_iff.mp hrev]
  | cons c back =>
    have hc : isWhitespace c = false := by
      apply hlast
      rw [← List.head?_reverse, hrev]
      rfl
    rw [List.dropWhile_cons_of_neg (by simp [hc]), ← hrev, List.reverse_reverse]

/-- Trimming keeps a part of the characters. -/
theorem mem_of_mem_trim {c : Char} {cs : List Char} (h : c ∈ trim cs) : c ∈ cs := by
  simp only [trim, trimEnd, List.mem_reverse] at h
  have := (List.dropWhile_suffix _).subset h
  exact (List.dropWhile_suffix _).subset (List.mem_reverse.mp this)

/-- Trimming makes no text longer. -/
theorem length_trim_le (cs : List Char) : (trim cs).length ≤ cs.length := by
  rw [trim, trimEnd, List.length_reverse]
  calc _ ≤ (trimStart cs).reverse.length := (List.dropWhile_suffix _).length_le
    _ ≤ cs.length := by
      rw [List.length_reverse]
      exact (List.dropWhile_suffix _).length_le

/-- White space at the end is trimmed. -/
theorem trim_concat {c : Char} (h : isWhitespace c = true) (cs : List Char) :
    trim (cs ++ [c]) = trim cs := by
  have hend (ds : List Char) : trimEnd (ds ++ [c]) = trimEnd ds := by
    rw [trimEnd, List.reverse_concat, List.dropWhile_cons_of_pos h]
    rfl
  rw [trim, trim, trimStart, trimStart, List.dropWhile_append]
  split
  · -- the text is white space throughout
    rename_i hempty
    rw [List.isEmpty_iff.mp hempty, List.dropWhile_cons_of_pos h]
    rfl
  · exact hend _

/-- Trimming keeps a first character that is no white space. -/
theorem exists_trim_cons {c : Char} (h : isWhitespace c = false) (cs : List Char) :
    ∃ rest, trim (c :: cs) = c :: rest := by
  have hstart : trimStart (c :: cs) = c :: cs := List.dropWhile_cons_of_neg (by simp [h])
  rw [trim, hstart, trimEnd, List.reverse_cons, List.dropWhile_append]
  split
  · exact ⟨[], by simp [h]⟩
  · exact ⟨(cs.reverse.dropWhile isWhitespace).reverse, by simp⟩

/-- A trimmed text does not start with white space. -/
theorem head_trim (cs : List Char) : ∀ c ∈ (trim cs).head?, isWhitespace c = false := by
  intro c hc
  cases hstart : trimStart cs with
  | nil =>
    rw [trim, hstart] at hc
    cases hc
  | cons d rest =>
    have hd : isWhitespace d = false := by
      have hhead := List.head?_dropWhile_not isWhitespace cs
      rw [show List.dropWhile isWhitespace cs = d :: rest from hstart] at hhead
      exact hhead
    -- the first character that is left stays at the end, too
    have htrim : trim cs = trim (d :: rest) := by
      rw [trim, trim, hstart, trimStart, List.dropWhile_cons_of_neg (by simp [hd])]
    obtain ⟨others, hothers⟩ := exists_trim_cons hd rest
    rw [htrim, hothers] at hc
    rwa [← Option.some.inj hc]

/-- A trimmed text does not end with white space. -/
theorem last_trim (cs : List Char) : ∀ c ∈ (trim cs).getLast?, isWhitespace c = false := by
  intro c hc
  have hhead := List.head?_dropWhile_not isWhitespace (trimStart cs).reverse
  rw [trim, trimEnd, List.getLast?_reverse] at hc
  rw [Option.mem_def.mp hc] at hhead
  exact hhead

/-! ## Prefixes -/

/-- A word that has to be followed by a character it does not hold is no prefix. -/
theorem dropPrefix?_append_eq_none {word cs rest : List Char} {c : Char} (hc : c ∉ word)
    (h : ¬ word <+: cs) : dropPrefix? word (cs ++ c :: rest) = none := by
  induction word generalizing cs with
  | nil => exact absurd (List.nil_prefix) h
  | cons d word ih =>
    obtain ⟨hcd, hcword⟩ := List.ne_and_not_mem_of_not_mem_cons hc
    cases cs with
    | nil => simp [dropPrefix?, Ne.symm hcd]
    | cons e cs =>
      simp only [List.cons_append, dropPrefix?]
      split
      · rename_i heq
        exact ih hcword fun hbase => h (by simpa [heq] using hbase)
      · rfl

/-- A prefix and what follows it make up the text. -/
theorem dropPrefix?_eq_some_iff {word cs rest : List Char} :
    dropPrefix? word cs = some rest ↔ cs = word ++ rest := by
  induction word generalizing cs with
  | nil => simp [dropPrefix?]
  | cons d word ih =>
    cases cs with
    | nil => simp [dropPrefix?]
    | cons e cs =>
      rw [dropPrefix?, List.cons_append, List.cons_eq_cons, ← ih]
      split
      · simp [*]
      · simp [Ne.symm ‹_›]

/-- What does not start with a word has nothing after it. -/
theorem dropPrefix?_eq_none_iff {word cs : List Char} :
    dropPrefix? word cs = none ↔ ¬word <+: cs := by
  rw [Option.eq_none_iff_forall_ne_some]
  constructor
  · rintro h ⟨rest, hrest⟩
    exact h rest (dropPrefix?_eq_some_iff.mpr hrest.symm)
  · intro h rest hrest
    exact h ⟨rest, (dropPrefix?_eq_some_iff.mp hrest).symm⟩

/-- What follows a prefix keeps a part of the characters. -/
theorem mem_of_dropPrefix? {c : Char} {word cs rest : List Char}
    (h : dropPrefix? word cs = some rest) (hc : c ∈ rest) : c ∈ cs := by
  rw [dropPrefix?_eq_some_iff.mp h]
  exact List.mem_append_right word hc

/-! ## Splitting -/

/-- Splitting at the first separator finds the one that was put in. -/
theorem splitOnce_append {separator : Char} {front : List Char} (h : separator ∉ front)
    (back : List Char) :
    splitOnce separator (front ++ separator :: back) = some (front, back) := by
  induction front with
  | nil => simp [splitOnce]
  | cons c front ih =>
    obtain ⟨hc, hfront⟩ := List.ne_and_not_mem_of_not_mem_cons h
    simp [splitOnce, Ne.symm hc, ih hfront]

/-- A text that is split is what stands before and after its first separator. -/
theorem splitOnce_eq_some_iff {separator : Char} {cs front back : List Char} :
    splitOnce separator cs = some (front, back) ↔
      separator ∉ front ∧ cs = front ++ separator :: back := by
  constructor
  · intro h
    induction cs generalizing front with
    | nil => simp [splitOnce] at h
    | cons d cs ih =>
      simp only [splitOnce] at h
      split at h
      · rename_i hd
        obtain ⟨rfl, rfl⟩ : [] = front ∧ cs = back := by simpa using h
        exact ⟨List.not_mem_nil, by rw [hd]; rfl⟩
      · rename_i hd
        obtain ⟨⟨before, after⟩, hsplit, hpair⟩ := Option.map_eq_some_iff.mp h
        obtain ⟨rfl, rfl⟩ : d :: before = front ∧ after = back := by simpa using hpair
        obtain ⟨hbefore, rfl⟩ := ih hsplit
        exact ⟨List.not_mem_cons_of_ne_of_not_mem (Ne.symm hd) hbefore, rfl⟩
  · rintro ⟨hfront, rfl⟩
    exact splitOnce_append hfront back

/-- There is always a first piece. -/
theorem splitAll_ne_nil (separator : Char) (cs : List Char) : splitAll separator cs ≠ [] := by
  cases cs with
  | nil => simp [splitAll]
  | cons c cs =>
    simp only [splitAll]
    split
    · simp
    · split <;> simp

/-- A piece without separators in front of a separator is split off. -/
theorem splitAll_append {separator : Char} {piece : List Char} (h : separator ∉ piece)
    (cs : List Char) :
    splitAll separator (piece ++ separator :: cs) = piece :: splitAll separator cs := by
  induction piece with
  | nil => simp [splitAll]
  | cons c piece ih =>
    obtain ⟨hc, hpiece⟩ := List.ne_and_not_mem_of_not_mem_cons h
    simp [splitAll, Ne.symm hc, ih hpiece]

/-- A text without separators is its only piece. -/
theorem splitAll_eq_self {separator : Char} {piece : List Char} (h : separator ∉ piece) :
    splitAll separator piece = [piece] := by
  induction piece with
  | nil => rfl
  | cons c piece ih =>
    obtain ⟨hc, hpiece⟩ := List.ne_and_not_mem_of_not_mem_cons h
    simp [splitAll, Ne.symm hc, ih hpiece]

/-- Texts around a separator are split apart from each other. -/
theorem splitAll_append_cons (separator : Char) (cs ds : List Char) :
    splitAll separator (cs ++ separator :: ds) = splitAll separator cs ++ splitAll separator ds := by
  induction cs with
  | nil => simp [splitAll]
  | cons c cs ih =>
    rw [List.cons_append, splitAll, splitAll]
    by_cases hc : c = separator
    · rw [if_pos hc, if_pos hc, ih]
      rfl
    · rw [if_neg hc, if_neg hc, ih]
      cases hcs : splitAll separator cs with
      | nil => exact absurd hcs (splitAll_ne_nil separator cs)
      | cons piece pieces => rfl

/-- Splitting undoes joining, when there are pieces at all. -/
theorem splitAll_intercalate {separator : Char} {pieces : List (List Char)}
    (hne : pieces ≠ []) (h : ∀ piece ∈ pieces, separator ∉ piece) :
    splitAll separator ([separator].intercalate pieces) = pieces := by
  induction pieces with
  | nil => exact absurd rfl hne
  | cons piece pieces ih =>
    have hpiece := h piece List.mem_cons_self
    cases pieces with
    | nil => rw [List.intercalate_singleton, splitAll_eq_self hpiece]
    | cons second pieces =>
      have hrest := ih (List.cons_ne_nil _ _) fun other hother =>
        h other (List.mem_cons_of_mem _ hother)
      rw [List.intercalate_cons_cons, List.append_assoc, List.singleton_append,
        splitAll_append hpiece, hrest]

/-- Joining undoes splitting. -/
theorem intercalate_splitAll (separator : Char) (cs : List Char) :
    [separator].intercalate (splitAll separator cs) = cs := by
  induction cs with
  | nil => rfl
  | cons c cs ih =>
    obtain ⟨piece, pieces, hpieces⟩ := List.exists_cons_of_ne_nil (splitAll_ne_nil separator cs)
    rw [splitAll]
    by_cases hc : c = separator
    · rw [if_pos hc, hpieces, List.intercalate_cons_cons, ← hpieces, ih, hc]
      rfl
    · rw [if_neg hc, hpieces]
      rw [hpieces] at ih
      -- the character goes to the first piece, whether others follow or not
      cases pieces with
      | nil => simpa using ih
      | cons second pieces =>
        rw [List.intercalate_cons_cons] at ih ⊢
        rw [← ih]
        rfl

/-- Joining two lists of texts puts the separator between them. -/
theorem intercalate_append (separator : List Char) {items others : List (List Char)}
    (hitems : items ≠ []) (hothers : others ≠ []) :
    separator.intercalate (items ++ others) =
      separator.intercalate items ++ separator ++ separator.intercalate others := by
  induction items with
  | nil => exact absurd rfl hitems
  | cons item items ih =>
    cases items with
    | nil =>
      obtain ⟨other, others, rfl⟩ := List.exists_cons_of_ne_nil hothers
      simp
    | cons second items =>
      have hrest := ih (List.cons_ne_nil _ _)
      simp only [List.cons_append, List.intercalate_cons_cons, List.append_assoc] at hrest ⊢
      rw [hrest]

/-- The pieces hold no separators. -/
theorem separator_notMem_splitAll {separator : Char} {cs piece : List Char}
    (h : piece ∈ splitAll separator cs) : separator ∉ piece := by
  induction cs generalizing piece with
  | nil =>
    obtain rfl : piece = [] := by simpa [splitAll] using h
    simp
  | cons c cs ih =>
    simp only [splitAll] at h
    split at h
    · rcases List.mem_cons.mp h with rfl | h
      · simp
      · exact ih h
    · rename_i hc
      split at h
      · rename_i hnil
        exact absurd hnil (splitAll_ne_nil _ _)
      · rename_i first pieces hpieces
        rcases List.mem_cons.mp h with rfl | h
        · have hfirst := ih (show first ∈ splitAll separator cs by simp [hpieces])
          simpa [List.mem_cons, Ne.symm hc] using hfirst
        · exact ih (by simp [hpieces, h])

/-- The characters of the pieces are those of the text, the separators excepted. -/
theorem mem_splitAll_iff {c separator : Char} (hc : c ≠ separator) {cs : List Char} :
    (∃ piece ∈ splitAll separator cs, c ∈ piece) ↔ c ∈ cs := by
  induction cs with
  | nil => simp [splitAll]
  | cons d cs ih =>
    simp only [splitAll]
    split
    · rename_i heq
      simp [ih, heq, hc]
    · split
      · rename_i hnil
        exact absurd hnil (splitAll_ne_nil _ _)
      · rename_i first pieces hpieces
        rw [hpieces] at ih
        simp only [List.mem_cons, exists_eq_or_imp] at ih ⊢
        rw [← ih, or_assoc]

/-- The characters of joined texts come from the separator or from a text. -/
theorem mem_intercalate {c : Char} {separator : List Char} {items : List (List Char)}
    (h : c ∈ separator.intercalate items) : c ∈ separator ∨ ∃ item ∈ items, c ∈ item := by
  induction items with
  | nil => simp at h
  | cons item items ih =>
    cases items with
    | nil => exact Or.inr ⟨item, List.mem_cons_self, by simpa using h⟩
    | cons second items =>
      rw [List.intercalate_cons_cons, List.mem_append, List.mem_append] at h
      rcases h with (h | h) | h
      · exact Or.inr ⟨item, List.mem_cons_self, h⟩
      · exact Or.inl h
      · exact (ih h).imp_right fun ⟨other, hother, hc⟩ =>
          ⟨other, List.mem_cons_of_mem _ hother, hc⟩

/-! ## Lines -/

/-- The pieces between line feeds of a text of lines: the lines, and nothing at the
    end. -/
theorem splitAll_unlines {lines : List (List Char)} (h : ∀ line ∈ lines, '\n' ∉ line) :
    splitAll '\n' (unlines lines) = lines ++ [[]] := by
  induction lines with
  | nil => rfl
  | cons line lines ih =>
    have hline : '\n' ∉ line := h line List.mem_cons_self
    have hrest := ih fun other hother => h other (List.mem_cons_of_mem _ hother)
    rw [unlines, List.flatMap_cons, List.append_assoc, List.singleton_append,
      splitAll_append hline, ← unlines, hrest, List.cons_append]

/-- The lines of a text come back, up to a carriage return at their ends. -/
theorem splitLines_unlines {lines : List (List Char)} (h : ∀ line ∈ lines, '\n' ∉ line) :
    splitLines (unlines lines) = lines.map dropReturn := by
  simp only [splitLines, splitAll_unlines h, List.reverse_append, List.reverse_cons,
    List.reverse_nil, List.nil_append, List.singleton_append, List.reverse_reverse, if_true]

/-- A line that does not end in a carriage return is left as it is. -/
theorem dropReturn_eq_self {line : List Char} (h : line.getLast? ≠ some '\r') :
    dropReturn line = line := by
  unfold dropReturn
  split
  · exact absurd ‹_› h
  · rfl

/-- A carriage return at the end of a line would be trimmed, too. -/
theorem trim_dropReturn (line : List Char) : trim (dropReturn line) = trim line := by
  unfold dropReturn
  split
  · rename_i hlast
    obtain ⟨front, rfl⟩ := List.getLast?_eq_some_iff.mp hlast
    rw [List.dropLast_concat, trim_concat (by decide)]
  · rfl

/-- A carriage return that is dropped from a line is not its first character. -/
theorem exists_dropReturn_cons {c : Char} (h : c ≠ '\r') (cs : List Char) :
    ∃ rest, dropReturn (c :: cs) = c :: rest := by
  unfold dropReturn
  split
  · rename_i hlast
    cases cs with
    | nil => exact absurd (by simpa using hlast) h
    | cons d ds => exact ⟨(d :: ds).dropLast, rfl⟩
  · exact ⟨cs, rfl⟩

/-! ## Replacing -/

/-- Whether a word can start within a text, the word itself coming after the text. -/
def startsWithin (word : List Char) : List Char → Bool
  | [] => false
  | c :: cs => word.isPrefixOf (c :: cs ++ word) || startsWithin word cs

/-- The rest of an occurrence is dropped. -/
private theorem replaceFrom_skip (word new cs rest : List Char) :
    replaceFrom word new cs.length (cs ++ rest) = replaceFrom word new 0 rest := by
  induction cs with
  | nil => rfl
  | cons c cs ih => exact ih

/-- A character at which no occurrence starts is kept. -/
theorem replaceFrom_cons_of_not {word : List Char} {c : Char} {cs : List Char}
    (h : ¬word <+: c :: cs) (new : List Char) :
    replaceFrom word new 0 (c :: cs) = c :: replaceFrom word new 0 cs := by
  rw [replaceFrom, dropPrefix?_eq_none_iff.mpr h]
  rfl

/-- The first occurrence is replaced, and what is before it is kept. -/
theorem replaceFrom_append {word front : List Char} (hword : word ≠ [])
    (h : startsWithin word front = false) (new rest : List Char) :
    replaceFrom word new 0 (front ++ (word ++ rest)) =
      front ++ (new ++ replaceFrom word new 0 rest) := by
  induction front with
  | nil =>
    obtain ⟨w, ws, rfl⟩ := List.exists_cons_of_ne_nil hword
    have hsome : dropPrefix? (w :: ws) (w :: (ws ++ rest)) = some rest :=
      dropPrefix?_eq_some_iff.mpr rfl
    rw [List.nil_append, List.cons_append, replaceFrom, hsome]
    exact congrArg (new ++ ·) (replaceFrom_skip ..)
  | cons c front ih =>
    rw [startsWithin, Bool.or_eq_false_iff, Bool.eq_false_iff, ne_eq,
      List.isPrefixOf_iff_prefix] at h
    obtain ⟨hhere, hlater⟩ := h
    -- whether an occurrence starts here shows within the length of the word
    have hnot : ¬word <+: c :: (front ++ (word ++ rest)) := by
      intro hprefix
      refine hhere (List.prefix_of_prefix_length_le hprefix ⟨rest, ?_⟩ ?_)
      · simp
      · simp only [List.length_append, List.length_cons]
        omega
    rw [List.cons_append, replaceFrom_cons_of_not hnot, ih hlater]
    rfl

/-- A text in which no occurrence starts is kept. -/
theorem replaceFrom_eq_self {word cs : List Char} (h : startsWithin word cs = false)
    (new : List Char) : replaceFrom word new 0 cs = cs := by
  induction cs with
  | nil => rfl
  | cons c cs ih =>
    rw [startsWithin, Bool.or_eq_false_iff, Bool.eq_false_iff, ne_eq,
      List.isPrefixOf_iff_prefix] at h
    obtain ⟨hhere, hlater⟩ := h
    have hnot : ¬word <+: c :: cs := fun hstart =>
      hhere (hstart.trans (List.prefix_append _ _))
    rw [replaceFrom_cons_of_not hnot, ih hlater]

end RunPlan.Text
