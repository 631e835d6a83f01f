import RunPlan.Proofs.Numeral
import RunPlan.Proofs.Yaml.Plain

/-!
# Quoted scalars are read back

Between single quotes a quote is written twice, and a line end is followed by the
indentation, which the reader drops with the other blanks around line ends. The writer
keeps away from texts with blanks of their own there. Line feeds are not written between
single quotes, so no line end is folded into a blank.

Between double quotes everything is on one line, and what cannot stand there is escaped.

## Key results

- `scanSingle_singleQuoted`: a text between single quotes is read back
- `scanDouble_doubleQuoted`: a text between double quotes is read back
-/

namespace RunPlan.Yaml

/-! ## Single quotes -/

/-- Line ends since the last character, in reverse. -/
def breakGap (r : List Char) : Gap :=
  .breaks r.getLast? r.dropLast

/-- Line ends other than line feeds read as themselves. -/
theorem folded_breakGap {r : List Char} (hne : r ≠ []) (h : '\n' ∉ r) :
    (breakGap r).folded = r := by
  have hlast := List.getLast?_eq_some_getLast hne
  have hfeed : r.getLast hne ≠ '\n' := fun heq => h (heq ▸ List.getLast_mem hne)
  rw [breakGap, hlast]
  have hfolded (c : Char) (hc : c ≠ '\n') (more : List Char) :
      (Gap.breaks (some c) more).folded = more ++ [c] := by
    rw [Gap.folded]
    all_goals simp [hc]
  rw [hfolded _ hfeed, List.dropLast_append_getLast]

/-- One more line end. -/
theorem addBreak_breakGap {r : List Char} (hne : r ≠ []) (c : Char) :
    (breakGap r).addBreak c = breakGap (c :: r) := by
  rw [breakGap, breakGap, Gap.addBreak, List.dropLast_cons_of_ne_nil hne, List.getLast?_cons]
  rw [List.getLast?_eq_some_getLast hne, Option.getD_some]

/-- The indentation after a line end is passed. -/
private theorem scanSingle_pad (acc r : List Char) (n : Nat) (p : Position)
    (cs : List Char) :
    scanSingle acc (breakGap r) p (pad n ++ cs) =
      scanSingle acc (breakGap r) (p.advance n) cs := by
  induction n generalizing p with
  | zero => rfl
  | succ n ih =>
    change scanSingle acc (breakGap r) p (' ' :: (pad n ++ cs)) = _
    rw [scanSingle]
    · simp only [show isBreak ' ' = false by rfl, show isBlank ' ' = true by rfl,
        show ¬ (' ' = '\'') by decide]
      simp [breakGap, Gap.addBlank]
      rw [← breakGap, ih, Position.next_advance]
    · intro rest hquote
      exact absurd hquote (by decide)

/-- A character that is neither a quote nor a blank ends the gap before it. -/
private theorem scanSingle_char {c : Char} (hquote : c ≠ '\'') (hbreak : isBreak c = false)
    (hblank : isBlank c = false) {p : Position} (hcolumn : 0 < p.column) (acc : List Char)
    (g : Gap) (cs : List Char) :
    scanSingle acc g p (c :: cs) = scanSingle (c :: (g.folded ++ acc)) .none p.next cs := by
  have hcolumn' : p.column ≠ 0 := by omega
  rw [scanSingle]
  · simp [hquote, hbreak, hblank, hcolumn']
  · rintro _ rfl
    exact absurd rfl hquote

/-- A line end. -/
private theorem scanSingle_break {c : Char} (hc : isPrintable c = true)
    (hbreak : isLineBreak c = true) (acc : List Char) (g : Gap) (p : Position)
    (cs : List Char) :
    scanSingle acc g p (c :: cs) = scanSingle acc (g.addBreak c) p.newline cs := by
  have hquote : c ≠ '\'' := by
    rintro rfl
    exact Bool.noConfusion hbreak
  rw [scanSingle]
  · simp [hquote, isBreak_of_isPrintable hc, hbreak]
  · rintro _ rfl
    exact absurd rfl hquote

/-- A blank within a line. -/
private theorem scanSingle_space (acc r : List Char) (p : Position) (cs : List Char) :
    scanSingle acc (blankGap r) p (' ' :: cs) =
      scanSingle acc (blankGap (' ' :: r)) p.next cs := by
  rw [scanSingle]
  · simp [show isBreak ' ' = false by rfl, show isBlank ' ' = true by rfl, addBlank_blankGap]
  · nofun

/-- The quote at the end. -/
private theorem scanSingle_end {rest : List Char} (h : rest.head? ≠ some '\'')
    (acc : List Char) (g : Gap) (p : Position) :
    scanSingle acc g p ('\'' :: rest) = some ⟨(g.folded ++ acc).reverse, false, p.next, rest⟩ := by
  rw [scanSingle]
  · simp
  · rintro cs - rfl
    exact h rfl

/-- A gap that the writer can be in: blanks within a line, or line ends that are still to
    be followed by the indentation. -/
inductive SingleGap : Bool → List Char → Gap → Prop where
  | blanks (r : List Char) : SingleGap false r (blankGap r)
  | breaks {r : List Char} (hne : r ≠ []) (hfeed : '\n' ∉ r) : SingleGap true r (breakGap r)

/-- What a gap between single quotes reads as. -/
theorem SingleGap.folded_eq {afterBreak : Bool} {r : List Char} {g : Gap}
    (h : SingleGap afterBreak r g) : g.folded = r := by
  cases h with
  | blanks => exact folded_blankGap r
  | breaks hne hfeed => exact folded_breakGap hne hfeed

/-- The indentation before the next character, where there has to be one. -/
private theorem SingleGap.scanSingle_indent {afterBreak : Bool} {r : List Char} {g : Gap}
    (h : SingleGap afterBreak r g) {indent : Nat} (hindent : 0 < indent) {p : Position}
    (hcolumn : afterBreak = false → 0 < p.column) (acc cs : List Char) :
    ∃ p' : Position, 0 < p'.column ∧
      scanSingle acc g p ((if afterBreak then pad indent else []) ++ cs) =
        scanSingle acc g p' cs := by
  cases h with
  | blanks => exact ⟨p, hcolumn rfl, rfl⟩
  | breaks hne hfeed =>
    refine ⟨p.advance indent, ?_, scanSingle_pad acc r indent p cs⟩
    simp only [Position.advance]
    omega

/-- One more line end, where there are no blanks before it. -/
private theorem SingleGap.addBreak {afterBreak : Bool} {r : List Char} {g : Gap}
    (h : SingleGap afterBreak r g) {c : Char} (hc : c ≠ '\n')
    (hblanks : afterBreak = false → ¬ r ≠ []) :
    SingleGap true (c :: r) (breakGap (c :: r)) ∧ g.addBreak c = breakGap (c :: r) := by
  cases h with
  | blanks =>
    obtain rfl : r = [] := by simpa using hblanks rfl
    exact ⟨.breaks (by simp) (by simpa using Ne.symm hc), rfl⟩
  | breaks hne hfeed =>
    refine ⟨.breaks (by simp) ?_, addBreak_breakGap hne c⟩
    simpa [hfeed] using Ne.symm hc

/-- Without a pair in a text there is none in the rest, and none at its start. -/
private theorem hasPair_cons {first second : Char → Bool} {c : Char} {cs : List Char}
    (h : hasPair first second (c :: cs) = false) :
    hasPair first second cs = false ∧
      (first c = true → ∀ d ∈ cs.head?, second d = false) := by
  cases cs with
  | nil => simp [hasPair]
  | cons d cs =>
    simp only [hasPair, Bool.or_eq_false_iff, Bool.and_eq_false_imp] at h
    simpa using ⟨h.2, h.1⟩

/-- The inside of single quotes is read back. The induction carries the gap before the
    text, blanks or line ends, and what may not follow it. -/
private theorem scanSingle_body {indent : Nat} (hindent : 0 < indent) {rest : List Char}
    (hrest : rest.head? ≠ some '\'') {cs : List Char}
    (hprintable : ∀ c ∈ cs, isPrintable c = true) (hfeed : '\n' ∉ cs)
    (hblankBreak : hasPair isSpace isLineBreak cs = false)
    (hbreakBlank : hasPair isLineBreak isSpace cs = false) {afterBreak : Bool}
    {r : List Char} {g : Gap} (hgap : SingleGap afterBreak r g) {p : Position}
    (hcolumn : afterBreak = false → 0 < p.column)
    (hbreak : afterBreak = false → r ≠ [] → ∀ c ∈ cs.head?, isLineBreak c = false)
    (hblank : afterBreak = true → ∀ c ∈ cs.head?, isSpace c = false) (acc : List Char) :
    ∃ p', scanSingle acc g p (singleQuotedBody indent afterBreak cs ++ '\'' :: rest) =
      some ⟨(r ++ acc).reverse ++ cs, false, p', rest⟩ := by
  induction cs generalizing afterBreak r g p acc with
  | nil =>
    obtain ⟨p', -, heq⟩ := hgap.scanSingle_indent hindent hcolumn acc ('\'' :: rest)
    refine ⟨p'.next, ?_⟩
    rw [singleQuotedBody, heq, scanSingle_end hrest, hgap.folded_eq, List.append_nil]
  | cons c cs ih =>
    have hc := hprintable c List.mem_cons_self
    have hcFeed : c ≠ '\n' := fun heq => hfeed (heq ▸ List.mem_cons_self)
    have hcs := fun d hd => hprintable d (List.mem_cons_of_mem c hd)
    have hcsFeed : '\n' ∉ cs := fun hd => hfeed (List.mem_cons_of_mem c hd)
    obtain ⟨hblankBreak', hnoBreak⟩ := hasPair_cons hblankBreak
    obtain ⟨hbreakBlank', hnoBlank⟩ := hasPair_cons hbreakBlank
    -- a line break adds to the gap, and so does a blank; any other character ends the gap
    by_cases hcBreak : isLineBreak c = true
    · obtain ⟨hgap', hadd⟩ := hgap.addBreak hcFeed fun h hr =>
        absurd (hbreak h hr c rfl) (by simp [hcBreak])
      obtain ⟨p', hread⟩ := ih hcs hcsFeed hblankBreak' hbreakBlank' hgap' (p := p.newline)
        (fun h => Bool.noConfusion h) (fun h => Bool.noConfusion h)
        (fun _ => hnoBlank hcBreak) acc
      refine ⟨p', ?_⟩
      rw [singleQuotedBody, if_pos hcBreak, List.cons_append, scanSingle_break hc hcBreak,
        hadd, hread]
      simp
    · have hcBreak' : isBreak c = false := by
        rw [isBreak_of_isPrintable hc]
        simpa using hcBreak
      rw [singleQuotedBody, if_neg hcBreak, List.append_assoc, List.append_assoc]
      obtain ⟨p₁, hp₁, hindented⟩ := hgap.scanSingle_indent hindent hcolumn acc
        ((if c = '\'' then ['\'', '\''] else [c]) ++
          (singleQuotedBody indent false cs ++ '\'' :: rest))
      rw [hindented]
      by_cases hquote : c = '\''
      · obtain ⟨p', hread⟩ := ih hcs hcsFeed hblankBreak' hbreakBlank' (.blanks [])
          (p := p₁.advance 2) (fun _ => by simp only [Position.advance]; omega)
          (fun _ h => absurd rfl h) (fun h => Bool.noConfusion h) ('\'' :: (r ++ acc))
        refine ⟨p', ?_⟩
        rw [if_pos hquote, List.cons_append, List.singleton_append, scanSingle, hgap.folded_eq]
        rw [blankGap] at hread
        rw [hread, hquote]
        simp
      rw [if_neg hquote, List.singleton_append]
      by_cases hspace : c = ' '
      · subst hspace
        cases hgap with
        | breaks => exact absurd (hblank rfl ' ' rfl) (by decide)
        | blanks =>
          obtain ⟨p', hread⟩ := ih hcs hcsFeed hblankBreak' hbreakBlank' (.blanks (' ' :: r))
            (p := p₁.next) (fun _ => by simp [Position.next]) (fun _ _ => hnoBreak rfl)
            (fun h => Bool.noConfusion h) acc
          refine ⟨p', ?_⟩
          rw [scanSingle_space, hread]
          simp
      · have hcBlank : isBlank c = false := by
          rw [isBlank_of_isPrintable hc, isSpace]
          simpa using hspace
        obtain ⟨p', hread⟩ := ih hcs hcsFeed hblankBreak' hbreakBlank' (.blanks [])
          (p := p₁.next) (fun _ => by simp [Position.next]) (fun _ h => absurd rfl h)
          (fun h => Bool.noConfusion h) (c :: (r ++ acc))
        refine ⟨p', ?_⟩
        rw [blankGap] at hread
        rw [scanSingle_char hquote hcBreak' hcBlank hp₁, hgap.folded_eq, hread]
        simp

/-- A text between single quotes is read back. -/
theorem scanSingle_singleQuoted {indent : Nat} (hindent : 0 < indent) {cs rest : List Char}
    (hrest : rest.head? ≠ some '\'') (hsingle : allowsSingleQuotes cs = true)
    (hfeed : '\n' ∉ cs) {p : Position} (hcolumn : 0 < p.column) :
    ∃ p', scanSingle [] .none p (singleQuotedBody indent false cs ++ '\'' :: rest) =
      some ⟨cs, false, p', rest⟩ := by
  simp only [allowsSingleQuotes, needsEscapes, Bool.and_eq_true, Bool.not_eq_true',
    Bool.or_eq_false_iff, Bool.not_eq_false', List.all_eq_true] at hsingle
  obtain ⟨⟨hprintable, hblankBreak⟩, hbreakBlank⟩ := hsingle
  obtain ⟨p', hread⟩ := scanSingle_body hindent hrest hprintable hfeed hblankBreak hbreakBlank
    (.blanks []) (fun _ => hcolumn) (fun _ h => absurd rfl h) (fun h => Bool.noConfusion h) []
  exact ⟨p', by simpa [blankGap] using hread⟩

/-- A text on one line is read back up to its last quote, where it ends. -/
theorem scanSingle_oneLine {cs rest : List Char} (hrest : rest.head? ≠ some '\'')
    (hprintable : ∀ c ∈ cs, isPrintable c = true) (hline : ∀ c ∈ cs, isLineBreak c = false)
    (indent : Nat) (acc r : List Char) {p : Position} (hcolumn : 0 < p.column) :
    scanSingle acc (blankGap r) p (singleQuotedBody indent false cs ++ '\'' :: rest) =
      some ⟨(r ++ acc).reverse ++ cs, false,
        p.advance ((singleQuotedBody indent false cs).length + 1), rest⟩ := by
  induction cs generalizing acc r p with
  | nil =>
    rw [singleQuotedBody, if_neg Bool.false_ne_true, List.nil_append, scanSingle_end hrest,
      folded_blankGap, List.append_nil]
    rfl
  | cons c cs ih =>
    have hc := hprintable c List.mem_cons_self
    have hcLine := hline c List.mem_cons_self
    have hcs := fun d hd => hprintable d (List.mem_cons_of_mem c hd)
    have hcsLine := fun d hd => hline d (List.mem_cons_of_mem c hd)
    rw [singleQuotedBody, if_neg (by simp [hcLine]), if_neg Bool.false_ne_true, List.nil_append]
    by_cases hquote : c = '\''
    · subst hquote
      have hread := ih hcs hcsLine ('\'' :: (r ++ acc)) [] (p := p.advance 2)
        (Nat.lt_of_lt_of_le hcolumn (Nat.le_add_right _ _))
      rw [blankGap] at hread
      rw [if_pos rfl, List.cons_append, List.singleton_append, List.cons_append,
        List.cons_append, scanSingle, folded_blankGap, hread, Position.advance_advance]
      simp [Nat.add_comm 2]
    rw [if_neg hquote, List.singleton_append, List.cons_append]
    have hnext : 0 < p.next.column := Nat.succ_pos _
    by_cases hspace : c = ' '
    · subst hspace
      rw [scanSingle_space, ih hcs hcsLine acc (' ' :: r) hnext, Position.next_advance]
      simp
    · have hbreak : isBreak c = false := by
        rw [isBreak_of_isPrintable hc, hcLine]
      have hblank : isBlank c = false := by
        rw [isBlank_of_isPrintable hc, isSpace]
        simpa using hspace
      have hread := ih hcs hcsLine (c :: (r ++ acc)) [] hnext
      rw [blankGap] at hread
      rw [scanSingle_char hquote hbreak hblank hcolumn, folded_blankGap, hread,
        Position.next_advance]
      simp

/-! ## Double quotes -/

/-- A character code is that of its character. -/
theorem charOfCode?_toNat (c : Char) : charOfCode? c.toNat = some c := by
  have hvalid : c.toNat < 0xD800 ∨ (0xDFFF < c.toNat ∧ c.toNat ≤ 0x10FFFF) := by
    rcases c.valid with h | ⟨h, h'⟩
    · exact Or.inl h
    · exact Or.inr ⟨h, Nat.le_of_lt_succ h'⟩
  rw [charOfCode?, if_pos hvalid, Char.ofNat_toNat]

/-- A hexadecimal number of a fixed width is read back. -/
theorem readDigits_hexDigits (width n : Nat) :
    Numeral.readDigits 16 0 (hexDigits width n) = some n := by
  rw [hexDigits, Numeral.readDigits_zeros 16 _ (by decide), Numeral.readDigits_upper]

/-- A hexadecimal number that fits has its width. -/
theorem length_hexDigits {width n : Nat} (hwidth : 0 < width) (h : n < 16 ^ width) :
    (hexDigits width n).length = width := by
  have hlength := (Nat.length_toDigits_le_iff (b := 16) (by decide) hwidth).mpr h
  rw [hexDigits, List.length_append, List.length_replicate, List.length_map]
  omega

/-- The digits of a numeric escape. -/
private theorem scanDouble_digits {ds : List Char} (hne : ds ≠ []) {value : Nat} {c : Char}
    (h : Numeral.readDigits 16 value ds = some c.toNat) (acc : List Char) (g : Gap)
    (p : Position) (cs : List Char) :
    scanDouble (.digits ds.length value) acc g p (ds ++ cs) =
      scanDouble .text (c :: acc) .none (p.advance ds.length) cs := by
  induction ds generalizing value p with
  | nil => exact absurd rfl hne
  | cons d ds ih =>
    rw [Numeral.readDigits] at h
    split at h
    · rename_i n hn
      split at h
      · rw [List.cons_append, scanDouble, hn]
        by_cases hlast : ds = []
        · subst hlast
          obtain hcode : value * 16 + n = c.toNat := by simpa [Numeral.readDigits] using h
          simp [hcode, charOfCode?_toNat, Position.next, Position.advance]
        · have hlength : 1 < ds.length + 1 := by
            have := List.length_pos_of_ne_nil hlast
            omega
          simp only [List.length_cons, hlength, if_true, Nat.add_sub_cancel]
          rw [ih hlast h, Position.next_advance]
      · simp at h
    · simp at h

/-- An escape of one letter. -/
private theorem scanDouble_simple {letter c : Char} (h : simpleEscape letter = some c)
    (hletter : isBreak letter = false) (acc r : List Char) {p : Position}
    (hcolumn : 0 < p.column) (cs : List Char) :
    scanDouble .text acc (blankGap r) p ('\\' :: letter :: cs) =
      scanDouble .text (c :: (r ++ acc)) (blankGap []) p.next.next cs := by
  have hcolumn' : p.column ≠ 0 := by omega
  rw [scanDouble]
  simp only [show isBreak '\\' = false by rfl, show isBlank '\\' = false by rfl,
    hcolumn', show ¬ ('\\' = '"') by decide, folded_blankGap]
  simp only [Bool.false_eq_true, if_false, false_and, if_true]
  rw [scanDouble]
  simp only [hletter, h, Bool.false_eq_true, if_false]
  rfl

/-- A numeric escape. -/
private theorem scanDouble_numeric {letter c : Char} {width : Nat} (hwidth : 0 < width)
    (hsimple : simpleEscape letter = none) (hletter : escapeWidth letter = some width)
    (hbreak : isBreak letter = false) (hfits : c.toNat < 16 ^ width) (acc r : List Char)
    {p : Position} (hcolumn : 0 < p.column) (cs : List Char) :
    scanDouble .text acc (blankGap r) p ('\\' :: letter :: (hexDigits width c.toNat ++ cs)) =
      scanDouble .text (c :: (r ++ acc)) (blankGap []) (p.next.next.advance width) cs := by
  have hcolumn' : p.column ≠ 0 := by omega
  have hlength := length_hexDigits hwidth hfits
  have hne : hexDigits width c.toNat ≠ [] := by
    rw [← List.length_pos_iff, hlength]
    exact hwidth
  have hdigits := scanDouble_digits hne (readDigits_hexDigits width c.toNat) (r ++ acc) .none
    p.next.next cs
  rw [hlength] at hdigits
  rw [scanDouble]
  simp only [show isBreak '\\' = false by rfl, show isBlank '\\' = false by rfl,
    hcolumn', show ¬ ('\\' = '"') by decide, folded_blankGap]
  simp only [Bool.false_eq_true, if_false, false_and, if_true]
  rw [scanDouble]
  simp only [hbreak, hsimple, hletter, Bool.false_eq_true, if_false]
  exact hdigits

/-- A character that needs no escape. -/
private theorem scanDouble_char {c : Char} (hquote : c ≠ '"') (hback : c ≠ '\\')
    (hbreak : isBreak c = false) (hblank : isBlank c = false) (acc r : List Char)
    {p : Position} (hcolumn : 0 < p.column) (cs : List Char) :
    scanDouble .text acc (blankGap r) p (c :: cs) =
      scanDouble .text (c :: (r ++ acc)) (blankGap []) p.next cs := by
  have hcolumn' : p.column ≠ 0 := by omega
  rw [scanDouble]
  simp only [hquote, hback, hbreak, hblank, hcolumn', folded_blankGap, false_and, if_false,
    Bool.false_eq_true]
  rfl

/-- A blank. -/
private theorem scanDouble_space (acc r : List Char) (p : Position) (cs : List Char) :
    scanDouble .text acc (blankGap r) p (' ' :: cs) =
      scanDouble .text acc (blankGap (' ' :: r)) p.next cs := by
  rw [scanDouble]
  simp [show isBreak ' ' = false by rfl, show isBlank ' ' = true by rfl, addBlank_blankGap]

/-- A character is read from a text. What has been read before is `acc` and the blanks `r`
    after it. -/
private def ReadsAs (text : List Char) (c : Char) : Prop :=
  ∀ (acc r : List Char) {p : Position}, 0 < p.column → ∀ cs : List Char,
    ∃ acc' r' : List Char, r' ++ acc' = c :: (r ++ acc) ∧
      scanDouble .text acc (blankGap r) p (text ++ cs) =
        scanDouble .text acc' (blankGap r') (p.advance text.length) cs

/-- An escape of one letter is read back. -/
private theorem readsAs_simple {letter c : Char} (h : simpleEscape letter = some c)
    (hletter : isBreak letter = false) : ReadsAs ['\\', letter] c :=
  fun acc r _ hcolumn cs => ⟨_, [], rfl, scanDouble_simple h hletter acc r hcolumn cs⟩

/-- A numeric escape is read back. -/
private theorem readsAs_numeric {letter c : Char} {width : Nat} (hwidth : 0 < width)
    (hsimple : simpleEscape letter = none) (hletter : escapeWidth letter = some width)
    (hbreak : isBreak letter = false) (hfits : c.toNat < 16 ^ width) :
    ReadsAs (['\\', letter] ++ hexDigits width c.toNat) c := by
  intro acc r p hcolumn cs
  have hread := scanDouble_numeric hwidth hsimple hletter hbreak hfits acc r hcolumn cs
  rw [Position.next_advance, Position.next_advance] at hread
  have hlength : (['\\', letter] ++ hexDigits width c.toNat).length = width + 1 + 1 := by
    simp [length_hexDigits hwidth hfits]
  refine ⟨_, [], rfl, ?_⟩
  rw [hlength]
  exact hread

/-- A character that stands for itself is read back. -/
private theorem readsAs_self {c : Char} (hquote : c ≠ '"') (hback : c ≠ '\\')
    (hbreak : isBreak c = false) (hblank : isBlank c = isSpace c) : ReadsAs [c] c := by
  intro acc r p hcolumn cs
  by_cases hspace : c = ' '
  · subst hspace
    exact ⟨acc, ' ' :: r, rfl, scanDouble_space acc r p cs⟩
  · refine ⟨_, [], rfl, scanDouble_char hquote hback hbreak ?_ acc r hcolumn cs⟩
    rw [hblank, isSpace]
    simpa using hspace

/-- Every character is read back from the way it is written. -/
private theorem readsAs_escapeChar (c : Char) : ReadsAs (escapeChar c) c := by
  have hcode {n : Nat} (h : c.toNat = n) : c = Char.ofNat n := by
    rw [← h, Char.ofNat_toNat]
  have hmax : c.toNat < 0x110000 := by
    rcases c.valid with h | ⟨-, h⟩
    · exact Nat.lt_trans h (by decide)
    · exact h
  unfold escapeChar
  dsimp only
  split
  -- the escapes of one letter
  iterate 14
    rename_i h
    obtain rfl := hcode h
    exact readsAs_simple rfl rfl
  rename_i hfeed _ _ _ _ hquote hback _ hline hparagraph
  split
  · rename_i hprintable
    have hne {n : Nat} (h : c.toNat = n → False) (d : Char) (hd : d.toNat = n) : c ≠ d := by
      rintro rfl
      exact h hd
    have hbreak : isBreak c = false := by
      simp [isBreak, hne hfeed '\n' rfl, show ¬ c.toNat = 0x2028 from hline,
        show ¬ c.toNat = 0x2029 from hparagraph]
    exact readsAs_self (hne hquote '"' rfl) (hne hback '\\' rfl) hbreak
      (isBlank_of_isPrintable hprintable)
  · split
    · exact readsAs_numeric (by decide) rfl rfl rfl (by omega)
    · split
      · exact readsAs_numeric (by decide) rfl rfl rfl (by omega)
      · exact readsAs_numeric (by decide) rfl rfl rfl (Nat.lt_trans hmax (by decide))

/-- The inside of double quotes is read back. -/
private theorem scanDouble_body (cs rest acc r : List Char) {p : Position}
    (hcolumn : 0 < p.column) :
    scanDouble .text acc (blankGap r) p (cs.flatMap escapeChar ++ '"' :: rest) =
      some ⟨(r ++ acc).reverse ++ cs, false, p.advance ((cs.flatMap escapeChar).length + 1),
        rest⟩ := by
  induction cs generalizing acc r p with
  | nil =>
    rw [List.flatMap_nil, List.nil_append, scanDouble]
    simp [folded_blankGap, Position.next, Position.advance]
  | cons c cs ih =>
    obtain ⟨acc', r', hread, hscan⟩ := readsAs_escapeChar c acc r hcolumn
      (cs.flatMap escapeChar ++ '"' :: rest)
    have hcolumn' : 0 < (p.advance (escapeChar c).length).column :=
      Nat.lt_of_lt_of_le hcolumn (Nat.le_add_right _ _)
    rw [List.flatMap_cons, List.append_assoc, hscan, ih acc' r' hcolumn', hread,
      Position.advance_advance]
    simp [Nat.add_assoc]

/-- A text between double quotes is read back. -/
theorem scanDouble_doubleQuoted (cs rest : List Char) {p : Position}
    (hcolumn : 0 < p.column) :
    scanDouble .text [] .none p (cs.flatMap escapeChar ++ '"' :: rest) =
      some ⟨cs, false, p.advance ((cs.flatMap escapeChar).length + 1), rest⟩ := by
  simpa [blankGap] using scanDouble_body cs rest [] [] hcolumn

end RunPlan.Yaml
