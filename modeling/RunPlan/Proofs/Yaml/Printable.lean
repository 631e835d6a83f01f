import RunPlan.Proofs.Yaml.ScalarNode

/-!
# Only printable characters are written

The writer lets printable characters through in every style, and escapes all others
between double quotes. So a document holds no character that the reader would refuse, or
take for another kind of line end.

## Key results

- `isPrintable_textLine`, `isPrintable_keyText`: the lines of a text, and a text as a key
- `isAllowed_of_isPrintable`, `normalizeBreaks_eq_self`: the reader takes printable
  characters as they are
-/

namespace RunPlan.Yaml

/-! ## Texts -/

/-- A character with a value as a digit is printable. -/
private theorem isPrintable_of_digitValue {c : Char}
    (h : (Numeral.digitValue c).isSome = true) : isPrintable c = true := by
  have hrange {low high : Char} (hc : (low ≤ c && c ≤ high) = true)
      (hlow : 0x20 ≤ low.toNat) (hhigh : high.toNat ≤ 0x7E) : isPrintable c = true := by
    simp only [Char.le_def, UInt32.le_iff_toNat_le, Bool.and_eq_true, decide_eq_true_eq] at hc
    have hcode : 0x20 ≤ c.toNat ∧ c.toNat ≤ 0x7E :=
      ⟨Nat.le_trans hlow hc.1, Nat.le_trans hc.2 hhigh⟩
    simp [isPrintable, hcode]
  unfold Numeral.digitValue at h
  split at h
  · exact hrange ‹_› (by decide) (by decide)
  split at h
  · exact hrange ‹_› (by decide) (by decide)
  split at h
  · exact hrange ‹_› (by decide) (by decide)
  · cases h

/-- What is read as a number is made of digits. -/
private theorem isSome_digitValue_of_readDigits {base value n : Nat} {cs : List Char}
    (h : Numeral.readDigits base value cs = some n) :
    ∀ c ∈ cs, (Numeral.digitValue c).isSome = true := by
  induction cs generalizing value with
  | nil => simp
  | cons c cs ih =>
    rw [Numeral.readDigits] at h
    split at h
    · rename_i d hd
      split at h
      · intro e he
        rcases List.mem_cons.mp he with rfl | he
        · rw [hd]
          rfl
        · exact ih h e he
      · cases h
    · cases h

/-- The digits of an escape are printable. -/
private theorem isPrintable_hexDigits (width n : Nat) :
    ∀ c ∈ hexDigits width n, isPrintable c = true := fun c hc =>
  isPrintable_of_digitValue
    (isSome_digitValue_of_readDigits (readDigits_hexDigits width n) c hc)

/-- An escaped character is printable. -/
theorem isPrintable_escapeChar (c : Char) : ∀ d ∈ escapeChar c, isPrintable d = true := by
  have hpair {letter : Char} (h : isPrintable letter = true) :
      ∀ d ∈ ['\\', letter], isPrintable d = true := by
    simpa [h] using show isPrintable '\\' = true by rfl
  have hnumeric {letter : Char} (h : isPrintable letter = true) (width n : Nat) :
      ∀ d ∈ ['\\', letter] ++ hexDigits width n, isPrintable d = true := by
    intro d hd
    rcases List.mem_append.mp hd with hd | hd
    · exact hpair h d hd
    · exact isPrintable_hexDigits width n d hd
  unfold escapeChar
  dsimp only
  split
  iterate 14
    exact hpair rfl
  split
  · rename_i h
    simpa using h
  · split
    · exact hnumeric rfl 2 _
    · split
      · exact hnumeric rfl 4 _
      · exact hnumeric rfl 8 _

/-- Blanks are printable. -/
theorem isPrintable_pad (n : Nat) : ∀ c ∈ pad n, isPrintable c = true := by
  intro c hc
  rw [List.eq_of_mem_replicate hc]
  rfl

/-- The inside of single quotes has the characters of the text, quotes and blanks. -/
private theorem isPrintable_singleQuotedBody {cs : List Char}
    (h : ∀ c ∈ cs, isPrintable c = true) (indent : Nat) (afterBreak : Bool) :
    ∀ c ∈ singleQuotedBody indent afterBreak cs, isPrintable c = true := by
  have hpad (afterBreak : Bool) :
      ∀ c ∈ if afterBreak then pad indent else [], isPrintable c = true := by
    cases afterBreak with
    | true => exact isPrintable_pad indent
    | false => simp
  induction cs generalizing afterBreak with
  | nil => exact hpad afterBreak
  | cons c cs ih =>
    have hc := h c List.mem_cons_self
    have hcs := ih fun d hd => h d (List.mem_cons_of_mem c hd)
    rw [singleQuotedBody]
    split
    · simpa [hc] using hcs true
    · intro d hd
      rw [List.mem_append, List.mem_append] at hd
      rcases hd with (hd | hd) | hd
      · exact hpad afterBreak d hd
      · split at hd
        · rw [show d = '\'' by simpa using hd]
          rfl
        · rw [show d = c by simpa using hd]
          exact hc
      · exact hcs false d hd

/-- The lines of a literal block have the characters of the text and blanks. -/
private theorem isPrintable_literalBody {cs : List Char}
    (h : ∀ c ∈ cs, isPrintable c = true) (indent : Nat) (atStart : Bool) :
    ∀ c ∈ literalBody indent atStart cs, isPrintable c = true := by
  induction cs generalizing atStart with
  | nil => simp [literalBody]
  | cons c cs ih =>
    have hc := h c List.mem_cons_self
    have hcs := ih fun d hd => h d (List.mem_cons_of_mem c hd)
    rw [literalBody]
    split
    · simpa [hc] using hcs true
    · intro d hd
      rw [List.mem_append, List.mem_cons] at hd
      rcases hd with hd | rfl | hd
      · split at hd
        · exact isPrintable_pad indent d hd
        · simp at hd
      · exact hc
      · exact hcs false d hd

/-- The header of a literal block is printable. -/
private theorem isPrintable_hints (cs : List Char) :
    ∀ c ∈ indentHint cs ++ chompHint cs, isPrintable c = true := by
  intro c hc
  rcases List.mem_append.mp hc with hc | hc
  · rw [indentHint] at hc
    split at hc
    · rw [List.mem_singleton.mp hc]
      rfl
    · cases hc
  · have hsign : c = '-' ∨ c = '+' := by
      unfold chompHint at hc
      split at hc
      · exact Or.inl (List.mem_singleton.mp hc)
      split at hc
      · exact Or.inl (List.mem_singleton.mp hc)
      split at hc
      · exact Or.inr (List.mem_singleton.mp hc)
      · cases hc
    rcases hsign with rfl | rfl <;> rfl

/-- A text that stands between single quotes is printable there. -/
private theorem isPrintable_singleQuoted {text : String} (h : textStyle text = .singleQuoted)
    (indent : Nat) : ∀ c ∈ singleQuoted indent text.toList, isPrintable c = true := by
  have hspec := textStyle_spec text
  rw [h] at hspec
  simp only [allowsSingleQuotes, needsEscapes, Bool.and_eq_true, Bool.not_eq_true',
    Bool.or_eq_false_iff, Bool.not_eq_false', List.all_eq_true] at hspec
  intro c hc
  rw [singleQuoted, List.append_assoc, List.mem_append, List.mem_append] at hc
  rcases hc with hc | hc | hc
  · rw [List.mem_singleton.mp hc]
    rfl
  · exact isPrintable_singleQuotedBody hspec.1.1.1 _ _ c hc
  · rw [List.mem_singleton.mp hc]
    rfl

/-- Every text is printable between double quotes. -/
private theorem isPrintable_doubleQuoted (cs : List Char) :
    ∀ c ∈ doubleQuoted cs, isPrintable c = true := by
  intro c hc
  rw [doubleQuoted, List.append_assoc, List.mem_append, List.mem_append] at hc
  rcases hc with hc | hc | hc
  · rw [List.mem_singleton.mp hc]
    rfl
  · obtain ⟨d, -, hd⟩ := List.mem_flatMap.mp hc
    exact isPrintable_escapeChar d c hd
  · rw [List.mem_singleton.mp hc]
    rfl

/-- A key is printable. -/
theorem isPrintable_keyText (text : String) : ∀ c ∈ keyText text, isPrintable c = true := by
  have hspec := textStyle_spec text
  rw [keyText]
  cases hstyle : textStyle text with
  | plain =>
    rw [hstyle] at hspec
    exact hspec.2.printable
  | singleQuoted => exact isPrintable_singleQuoted hstyle 0
  | doubleQuoted | literal => exact isPrintable_doubleQuoted text.toList

/-- The lines of a text are printable. -/
theorem isPrintable_textLine (indent : Nat) (text : String) :
    ∀ c ∈ textLine indent text, isPrintable c = true := by
  have hlineEnd {cs : List Char} (h : ∀ c ∈ cs, isPrintable c = true) :
      ∀ c ∈ cs ++ ['\n'], isPrintable c = true := by
    intro c hc
    rcases List.mem_append.mp hc with hc | hc
    · exact h c hc
    · rw [List.mem_singleton.mp hc]
      rfl
  -- apart from what a style adds, the characters are those of the text or of escapes
  have hspec := textStyle_spec text
  rw [textLine]
  cases hstyle : textStyle text with
  | plain =>
    rw [hstyle] at hspec
    exact hlineEnd hspec.2.printable
  | singleQuoted => exact hlineEnd (isPrintable_singleQuoted hstyle _)
  | doubleQuoted => exact hlineEnd (isPrintable_doubleQuoted text.toList)
  | literal =>
    rw [hstyle] at hspec
    simp only [allowsLiteral, needsEscapes, Bool.and_eq_true, Bool.not_eq_true',
      Bool.or_eq_false_iff, Bool.not_eq_false', List.all_eq_true] at hspec
    intro c hc
    simp only [literal, List.mem_append, or_assoc] at hc
    rcases hc with hc | hc | hc | hc | hc | hc
    · rw [List.mem_singleton.mp hc]
      rfl
    · exact isPrintable_hints _ c (List.mem_append_left _ hc)
    · exact isPrintable_hints _ c (List.mem_append_right _ hc)
    · rw [List.mem_singleton.mp hc]
      rfl
    · exact isPrintable_literalBody hspec.1.1.1 _ _ c hc
    · split at hc
      · cases hc
      · rw [List.mem_singleton.mp hc]
        rfl

/-! ## Characters for the reader -/

/-- A printable character is allowed in a document. -/
theorem isAllowed_of_isPrintable {c : Char} (h : isPrintable c = true) :
    isAllowed c = true := by
  simp only [isPrintable, Bool.or_eq_true, Bool.and_eq_true, decide_eq_true_eq,
    beq_iff_eq] at h
  simp only [isAllowed, Bool.or_eq_true, Bool.and_eq_true, decide_eq_true_eq, beq_iff_eq]
  grind

/-- In a text of printable characters every line end is what it was. -/
theorem normalizeBreaks_eq_self {cs : List Char} (h : ∀ c ∈ cs, isPrintable c = true) :
    normalizeBreaks isNextLine cs = cs := by
  induction cs with
  | nil => rfl
  | cons c cs ih =>
    have hc := h c List.mem_cons_self
    have hreturn : c ≠ '\r' := by
      rintro rfl
      exact Bool.noConfusion hc
    have hnext : isNextLine c = false := by
      rw [isNextLine, beq_eq_false_iff_ne]
      intro hcode
      simp [isPrintable, hcode] at hc
    rw [normalizeBreaks, ih fun d hd => h d (List.mem_cons_of_mem c hd)]
    · simp [hreturn, hnext]
    · rintro ds rfl
      exact absurd rfl hreturn

end RunPlan.Yaml
