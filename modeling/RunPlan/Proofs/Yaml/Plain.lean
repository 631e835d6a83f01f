import RunPlan.Proofs.Yaml.Cursor
import RunPlan.Yaml.Reader

/-!
# Plain scalars are read back

The writer leaves a text without quotes when no character in it could be taken for an
indicator (`allowsPlain`). Under the same conditions (`IsPlainScalar`) the reader goes
through the whole text and stops at what follows it: the end of the line, or the colon
after a key.

## Key results

- `IsPlainScalar.of_allowsPlain`, `IsPlainScalar.of_inert`: texts without indicators
- `IsPlainScalar.startsScalar`: nothing else starts there
- `IsPlainScalar.scanPlain_eq`: the whole text is read
- `scanPlain_voids`, `scanPlain_colon`: no more than the text is read
-/

namespace RunPlan.Yaml

/-! ## Texts without indicators -/

/-- A text that can be written without quotes as far as its characters go. -/
structure IsPlainScalar (cs : List Char) : Prop where
  ne_nil : cs ≠ []
  printable : ∀ c ∈ cs, isPrintable c = true
  oneLine : ∀ c ∈ cs, isLineBreak c = false
  first : ∀ c ∈ cs.head?, isSpace c = false
  last : ∀ c ∈ cs.getLast?, isSpace c = false
  leading : hasLeadingIndicator cs = false
  inner : hasInnerIndicator false (cs.drop 1) = false

/-- What the writer leaves without quotes. -/
theorem IsPlainScalar.of_allowsPlain {cs : List Char} (hne : cs ≠ [])
    (h : allowsPlain cs = true) : IsPlainScalar cs := by
  simp only [allowsPlain, needsEscapes, startsOrEndsWith, Bool.and_eq_true, Bool.not_eq_true',
    Bool.or_eq_false_iff, Bool.not_eq_false', List.all_eq_true, List.any_eq_false,
    Bool.not_eq_true] at h
  obtain ⟨⟨⟨⟨⟨⟨hprintable, -⟩, hfirst, hlast⟩, hbreaks⟩, -⟩, hleading⟩, hinner⟩ := h
  have hnone {c? : Option Char} (h : c?.any isSpace = false) : ∀ c ∈ c?, isSpace c = false := by
    rintro c rfl
    simpa using h
  exact ⟨hne, hprintable, hbreaks, hnone hfirst, hnone hlast, hleading, hinner⟩

/-- A character that means nothing where it stands in a plain scalar. -/
def IsInert (c : Char) : Prop :=
  isPrintable c = true ∧ isLineBreak c = false ∧ isSpace c = false ∧ c ≠ ':' ∧ c ≠ '#' ∧
    c ≠ '?' ∧ isIndicator c = false

/-- Characters of words: letters, digits, and signs that mean nothing inside a word. -/
def isWordChar (c : Char) : Bool :=
  Text.isAlphanumeric c || c == '.' || c == '-' || c == '_'

/-- What holds of every ASCII character. -/
private theorem forall_ascii {P : Char → Prop} (h : ∀ n < 128, P (Char.ofNat n)) {c : Char}
    (hc : c.toNat < 128) : P c := by
  rw [← Char.ofNat_toNat c]
  exact h _ hc

/-- The characters of words are inert. -/
theorem wordChar_spec {c : Char} (h : isWordChar c = true) : IsInert c := by
  have hascii : c.toNat < 128 := by
    have hle {d : Char} (hd : c ≤ d) (hd' : d.toNat < 128) : c.toNat < 128 := by
      rw [Char.le_def, UInt32.le_iff_toNat_le] at hd
      exact Nat.lt_of_le_of_lt hd hd'
    simp only [isWordChar, Text.isAlphanumeric, Text.isLetter, Text.isDigit, Bool.or_eq_true,
      Bool.and_eq_true, decide_eq_true_eq, beq_iff_eq] at h
    rcases h with ((((⟨-, h⟩ | ⟨-, h⟩) | ⟨-, h⟩) | rfl) | rfl) | rfl
    · exact hle h (by decide)
    · exact hle h (by decide)
    · exact hle h (by decide)
    all_goals decide
  revert h
  exact forall_ascii (P := fun c => isWordChar c = true → IsInert c)
    (by unfold IsInert; decide) hascii

/-- Among inert characters there is no indicator. -/
private theorem hasInnerIndicator_inert {cs : List Char} (h : ∀ c ∈ cs, IsInert c) :
    hasInnerIndicator false cs = false := by
  induction cs with
  | nil => rfl
  | cons c cs ih =>
    obtain ⟨hprintable, hbreak, hspace, hcolon, hhash, -, -⟩ := h c List.mem_cons_self
    have hblank : (c == ' ' || c == '\t' || isLineBreak c) = false := by
      have := isBlank_of_isPrintable hprintable
      rw [hspace, isBlank] at this
      rw [this, hbreak, Bool.or_false]
    rw [hasInnerIndicator, hblank, ih fun d hd => h d (List.mem_cons_of_mem _ hd)]
    simp [hcolon]

/-- Inert characters can be written without quotes, unless they are a single dash. -/
theorem IsPlainScalar.of_inert {cs : List Char} (hne : cs ≠ []) (hdash : cs ≠ ['-'])
    (h : ∀ c ∈ cs, IsInert c) : IsPlainScalar cs where
  ne_nil := hne
  printable c hc := (h c hc).1
  oneLine c hc := (h c hc).2.1
  first c hc := (h c (List.mem_of_mem_head? hc)).2.2.1
  last c hc := (h c (List.mem_of_getLast? hc)).2.2.1
  leading := by
    obtain ⟨c, cs, rfl⟩ := List.exists_cons_of_ne_nil hne
    obtain ⟨-, -, -, hcolon, -, hquestion, hindicator⟩ := h c List.mem_cons_self
    have hblank : c = '-' → blankFollows cs = false := by
      rintro rfl
      cases cs with
      | nil => exact absurd rfl hdash
      | cons d cs =>
        obtain ⟨hprintable, hbreak, hspace, -⟩ := h d (by simp)
        have := isBlank_of_isPrintable hprintable
        rw [hspace, isBlank] at this
        rw [blankFollows, this, hbreak, Bool.or_false]
    rw [hasLeadingIndicator, hindicator]
    by_cases hc : c = '-'
    · simp [hblank hc]
    · simp [hc, hcolon, hquestion]
  inner := hasInnerIndicator_inert fun c hc => h c (List.mem_of_mem_drop hc)

/-- A word can be written without quotes, unless it is a single dash. -/
theorem IsPlainScalar.of_word {cs : List Char} (hne : cs ≠ []) (hdash : cs ≠ ['-'])
    (h : ∀ c ∈ cs, isWordChar c = true) : IsPlainScalar cs :=
  .of_inert hne hdash fun c hc => wordChar_spec (h c hc)

/-! ## Scanning -/

/-- A gap of blanks within a line, in reverse; none without any. -/
def blankGap : List Char → Gap
  | [] => .none
  | r => .blanks r

/-- A gap of blanks reads as the blanks. -/
theorem folded_blankGap (r : List Char) : (blankGap r).folded = r := by
  cases r <;> rfl

/-- A gap of blanks with one more blank. -/
theorem addBlank_blankGap (c : Char) (r : List Char) :
    (blankGap r).addBlank c = blankGap (c :: r) := by
  cases r <;> rfl

/-- The first character after a blank decides for the reader as it does for the writer. -/
private theorem atBlank_append {cs : List Char} (h : ∀ c ∈ cs, isPrintable c = true)
    (hblank : blankFollows cs = false) (tail : List Char) : atBlank (cs ++ tail) = false := by
  cases cs with
  | nil => exact Bool.noConfusion hblank
  | cons c cs =>
    have hprintable := h c List.mem_cons_self
    rw [blankFollows] at hblank
    simp only [List.cons_append, atBlank, isBlank, isBreak_of_isPrintable hprintable]
    exact hblank

/-- A blank within a line opens a gap, or makes it longer. -/
private theorem scanPlain_space (indent : Int) (acc r : List Char) (p : Position)
    (cs : List Char) :
    scanPlain false indent acc (blankGap r) p (' ' :: cs) =
      scanPlain false indent acc (blankGap (' ' :: r)) p.next cs := by
  have hspace : isBreak ' ' = false ∧ isBlank ' ' = true := ⟨rfl, rfl⟩
  cases r with
  | nil =>
    rw [blankGap, scanPlain]
    simp [hspace, Gap.isBreak, Gap.addBlank, blankGap]
  | cons b r =>
    change scanPlain false indent acc (.blanks (b :: r)) p _ = _
    rw [scanPlain]
    · simp [hspace, Gap.isBreak, Gap.addBlank, blankGap]
    · nofun

/-- A character within a line that is no blank ends the gap before it. -/
private theorem scanPlain_char (indent : Int) {c : Char} {r : List Char} {p : Position}
    {cs : List Char} (hbreak : isBreak c = false) (hblank : isBlank c = false)
    (hhash : r ≠ [] → c ≠ '#') (hcolon : c = ':' → atBlank cs = false)
    (hindent : r ≠ [] → indent ≤ p.column ∧ 0 < p.column) (acc : List Char) :
    scanPlain false indent acc (blankGap r) p (c :: cs) =
      scanPlain false indent (c :: (r ++ acc)) .none p.next cs := by
  have hends : endsPlain false c cs = false := by
    by_cases hc : c = ':' <;> simp [endsPlain, hc, hcolon]
  cases r with
  | nil =>
    rw [blankGap, scanPlain]
    simp [hbreak, hblank, isStrayColon, hends, Gap.folded]
  | cons b r =>
    obtain ⟨hindent, hcolumn⟩ := hindent (by simp)
    have hindent' : ¬ (p.column : Int) < indent := by omega
    have hcolumn' : p.column ≠ 0 := by omega
    change scanPlain false indent acc (.blanks (b :: r)) p _ = _
    rw [scanPlain]
    · simp [hbreak, hblank, isStrayColon, hends, Gap.folded, hindent', hcolumn',
        hhash (by simp)]
    · nofun

/-- The characters of a line are read up to its end. The induction carries the blanks
    since the last word, which the writer's scan knows as "after a blank". -/
theorem scanPlain_inner (indent : Int) {cs r : List Char}
    (hprintable : ∀ c ∈ cs, isPrintable c = true) (hline : ∀ c ∈ cs, isLineBreak c = false)
    (hinner : hasInnerIndicator (!r.isEmpty) cs = false) (hblanks : cs = [] → r = [])
    (hlast : ∀ c ∈ cs.getLast?, isSpace c = false) (acc : List Char) {p : Position}
    (hindent : indent ≤ p.column) (hcolumn : 0 < p.column) (tail : List Char) :
    scanPlain false indent acc (blankGap r) p (cs ++ tail) =
      scanPlain false indent (cs.reverse ++ r ++ acc) .none (p.advance cs.length) tail := by
  -- blanks are kept back in `r` until another character shows that they are not the last ones
  induction cs generalizing r acc p with
  | nil =>
    rw [hblanks rfl]
    rfl
  | cons c cs ih =>
    have hc := hprintable c List.mem_cons_self
    have hbreak : isBreak c = false := by
      rw [isBreak_of_isPrintable hc, hline c List.mem_cons_self]
    have hcs : ∀ d ∈ cs, isPrintable d = true := fun d hd =>
      hprintable d (List.mem_cons_of_mem _ hd)
    have hcsLine : ∀ d ∈ cs, isLineBreak d = false := fun d hd =>
      hline d (List.mem_cons_of_mem _ hd)
    have hcsLast : ∀ d ∈ cs.getLast?, isSpace d = false := by
      intro d hd
      apply hlast
      rw [List.getLast?_cons, Option.mem_def.mp hd]
      rfl
    have hnext : indent ≤ p.next.column ∧ 0 < p.next.column := by
      simp only [Position.next]
      omega
    have htab : (c == '\t') = false := by
      rw [beq_eq_false_iff_ne]
      rintro rfl
      exact Bool.noConfusion hc
    simp only [hasInnerIndicator, Bool.or_eq_false_iff, htab, hline c List.mem_cons_self,
      Bool.or_false] at hinner
    obtain ⟨⟨hcolon, hhash⟩, hinner⟩ := hinner
    rw [List.cons_append, List.reverse_cons]
    by_cases hspace : c = ' '
    · subst hspace
      have hne : cs ≠ [] := by
        rintro rfl
        exact Bool.noConfusion (hlast ' ' rfl)
      rw [scanPlain_space, ih (r := ' ' :: r) hcs hcsLine hinner (fun h => absurd h hne)
        hcsLast acc hnext.1 hnext.2, Position.next_advance]
      simp
    · have hblank : isBlank c = false := by
        rw [isBlank_of_isPrintable hc, isSpace]
        simpa using hspace
      rw [scanPlain_char indent hbreak hblank (by rintro hr rfl; simp_all)
        (by rintro rfl; exact atBlank_append hcs (by simpa using hcolon) _)
        (fun _ => ⟨hindent, hcolumn⟩)]
      rw [beq_false_of_ne hspace] at hinner
      have hread := ih (r := []) hcs hcsLine hinner (fun _ => rfl) hcsLast (c :: (r ++ acc))
        hnext.1 hnext.2
      rw [blankGap] at hread
      rw [hread, Position.next_advance]
      simp

/-- A text that starts like a node on its line: with a token, and with no indicator of a
    block, of a property or of a directive. -/
structure StartsInline (cs : List Char) : Prop where
  ne_nil : cs ≠ []
  token : StartsToken cs
  head : ∀ c ∈ cs.head?, c ∉ ['&', '!', '|', '>', '%']
  indicator : ∀ c tail, cs = c :: tail → c = '-' ∨ c = '?' ∨ c = ':' → atBlank tail = false

/-- A text that starts like a scalar: with no bracket and no alias either. -/
structure StartsScalar (cs : List Char) : Prop extends StartsInline cs where
  scalar : ∀ c ∈ cs.head?, c ∉ ['*', '[', '{']

/-- A plain scalar starts like one, whatever follows it. -/
theorem IsPlainScalar.startsScalar {cs : List Char} (h : IsPlainScalar cs)
    (tail : List Char) :
    StartsScalar (cs ++ tail) ∧ startsPlain false (cs ++ tail) = true ∧
      ∀ c ∈ (cs ++ tail).head?, c ≠ '\'' ∧ c ≠ '"' := by
  obtain ⟨c, cs, rfl⟩ := List.exists_cons_of_ne_nil h.ne_nil
  have hc := h.printable c List.mem_cons_self
  have hcs : ∀ d ∈ cs, isPrintable d = true := fun d hd =>
    h.printable d (List.mem_cons_of_mem _ hd)
  have hbreak : isBreak c = false := by
    rw [isBreak_of_isPrintable hc, h.oneLine c List.mem_cons_self]
  have hblank : isBlank c = false := by
    rw [isBlank_of_isPrintable hc, h.first c rfl]
  have hleading := h.leading
  simp only [hasLeadingIndicator, isIndicator, Bool.or_eq_false_iff, Bool.and_eq_false_imp,
    Bool.or_eq_true, beq_iff_eq, List.contains_eq_mem, decide_eq_false_iff_not, List.mem_cons,
    List.not_mem_nil, or_false, not_or] at hleading
  obtain ⟨hindicator, hfollows⟩ := hleading
  -- these characters may stand at the start as long as no blank comes after them
  have hafter (h : c = '-' ∨ c = '?' ∨ c = ':') : atBlank (cs ++ tail) = false :=
    atBlank_append hcs (hfollows (or_assoc.mpr h)) tail
  refine ⟨⟨⟨by simp, ?_, ?_, ?_⟩, ?_⟩, ?_, ?_⟩
  · exact .cons ⟨hbreak, hblank, hindicator.1⟩ _
  · rintro d ⟨⟩
    simp [hindicator]
  · rintro d tail' heq hd
    cases heq
    exact hafter hd
  · rintro d ⟨⟩
    simp [hindicator]
  · simp only [List.cons_append, startsPlain]
    split
    · rename_i hdash
      simp [hafter (Or.inl hdash)]
    · split
      · rename_i hmark
        rcases hmark with hmark | hmark <;> simp [hafter, hmark]
      · simp [hblank, hbreak, isFlowMark, hindicator]
  · rintro d ⟨⟩
    simp [hindicator]

/-- The whole text of a plain scalar is read. -/
theorem IsPlainScalar.scanPlain_eq {cs : List Char} (h : IsPlainScalar cs) (indent : Int)
    {p : Position} (hindent : indent ≤ p.column + 1) (tail : List Char) :
    scanPlain false indent [] .none p (cs ++ tail) =
      scanPlain false indent cs.reverse .none (p.advance cs.length) tail := by
  obtain ⟨c, cs, rfl⟩ := List.exists_cons_of_ne_nil h.ne_nil
  have hc := h.printable c List.mem_cons_self
  have hcs : ∀ d ∈ cs, isPrintable d = true := fun d hd =>
    h.printable d (List.mem_cons_of_mem _ hd)
  have hbreak : isBreak c = false := by
    rw [isBreak_of_isPrintable hc, h.oneLine c List.mem_cons_self]
  have hblank : isBlank c = false := by
    rw [isBlank_of_isPrintable hc, h.first c rfl]
  have hcolon : c = ':' → atBlank (cs ++ tail) = false := by
    rintro rfl
    have hleading := h.leading
    simp only [hasLeadingIndicator, Bool.or_eq_false_iff] at hleading
    exact atBlank_append hcs (by simpa using hleading.2) tail
  have hchar := scanPlain_char indent (r := []) (p := p) hbreak hblank
    (fun h => absurd rfl h) hcolon (fun h => absurd rfl h) []
  have hinner := scanPlain_inner indent (r := []) (p := p.next) hcs
    (fun d hd => h.oneLine d (List.mem_cons_of_mem _ hd)) h.inner (fun _ => rfl)
    (fun d hd => h.last d (by rw [List.getLast?_cons, Option.mem_def.mp hd]; rfl)) [c]
    (by simpa [Position.next] using hindent) (by simp [Position.next]) tail
  rw [blankGap] at hchar hinner
  rw [List.cons_append, hchar]
  simp only [List.nil_append]
  rw [hinner, Position.next_advance]
  simp

/-- Blanks at the start of a line do not count. -/
private theorem scanPlain_pad (indent : Int) (acc : List Char) (first : Option Char)
    (more : List Char) (n : Nat) (p : Position) (cs : List Char) :
    scanPlain false indent acc (.breaks first more) p (pad n ++ cs) =
      scanPlain false indent acc (.breaks first more) (p.advance n) cs := by
  induction n generalizing p with
  | zero => rfl
  | succ n ih =>
    change scanPlain false indent acc (.breaks first more) p (' ' :: (pad n ++ cs)) = _
    rw [scanPlain]
    · simp only [show isBreak ' ' = false by rfl, show isBlank ' ' = true by rfl,
        show (' ' == '\t') = false by rfl, Gap.addBlank]
      simp [ih, Position.next_advance]
    · nofun

/-- After the end of a line, a plain scalar ends before a token further left, or before a
    comment. -/
private theorem scanPlain_breaks {indent : Int} {k : Nat} {rest : List Char}
    {voids : List (List Char)} (hvoids : ∀ line ∈ voids, isVoidLine line = true)
    (hk : (k : Int) < indent) (hrest : StartsToken rest) (acc : List Char)
    (first : Option Char) (more : List Char) {p : Position} (hp : p.column = 0) :
    ∃ p' rest' q, scanPlain false indent acc (.breaks first more) p
        (Text.unlines voids ++ (pad k ++ rest)) = some ⟨acc.reverse, true, p', rest'⟩ ∧
      q.column = k ∧ Cursor.gap false false true p' rest' = (true, q, rest) := by
  -- blank lines make the gap longer, and the first comment ends the scalar
  induction voids generalizing more p with
  | nil =>
    refine ⟨p.advance k, rest, p.advance k, ?_, by simp [Position.advance, hp],
      gap_token hrest _ _ _⟩
    rw [Text.unlines, List.flatMap_nil, List.nil_append, scanPlain_pad]
    cases rest with
    | nil => simp [scanPlain, Gap.isBreak]
    | cons c rest =>
      obtain ⟨hbreak, hblank, -⟩ := hrest c rfl
      have hcolumn : ((p.advance k).column : Int) < indent := by
        simpa [Position.advance, hp] using hk
      rw [scanPlain]
      · simp [hbreak, hblank, hcolumn, Gap.isBreak]
      · simp
  | cons line voids ih =>
    obtain ⟨n, comment, rfl, hline, hcomment⟩ :=
      exists_of_isVoidLine (hvoids line List.mem_cons_self)
    have hvoids' : ∀ l ∈ voids, isVoidLine l = true := fun l hl =>
      hvoids l (List.mem_cons_of_mem _ hl)
    have htext : Text.unlines ((pad n ++ comment) :: voids) ++ (pad k ++ rest) =
        pad n ++ (comment ++ '\n' :: (Text.unlines voids ++ (pad k ++ rest))) := by
      simp [Text.unlines]
    rw [htext, scanPlain_pad]
    cases comment with
    | nil =>
      obtain ⟨p', rest', q, hscan, hgap⟩ := ih hvoids' ('\n' :: more)
        (p := (p.advance n).newline) rfl
      refine ⟨p', rest', q, ?_, hgap⟩
      rw [List.nil_append, scanPlain]
      · simpa [show isBreak '\n' = true by rfl, Gap.addBreak] using hscan
      · simp
    | cons c comment =>
      obtain rfl : c = '#' := by simpa using hcomment
      obtain ⟨q, hq, hgap⟩ := gap_voids hvoids'
        (p := ((p.advance n).advance ('#' :: comment).length).newline) rfl (pad k ++ rest)
      refine ⟨p.advance n, '#' :: comment ++ '\n' :: (Text.unlines voids ++ (pad k ++ rest)),
        q.advance k, ?_, by simp [Position.advance, hq], ?_⟩
      · rw [List.cons_append, scanPlain]
        · simp [isBreak, isBlank, Gap.isBreak]
        · simp
      · rw [gap_void hline hcomment, hgap, gap_pad, gap_token hrest]

/-- At the end of a line that is followed by a token further left, a plain scalar ends. The
    void lines before that token may be passed only in part, which leaves the same token. -/
theorem scanPlain_voids {indent : Int} {k : Nat} {rest : List Char}
    {voids : List (List Char)} (hvoids : ∀ line ∈ voids, isVoidLine line = true)
    (hk : (k : Int) < indent) (hrest : StartsToken rest) (acc : List Char) (p : Position) :
    ∃ p' rest' q, scanPlain false indent acc .none p
        ('\n' :: (Text.unlines voids ++ (pad k ++ rest))) =
          some ⟨acc.reverse, true, p', rest'⟩ ∧
      q.column = k ∧ Cursor.gap false false true p' rest' = (true, q, rest) := by
  rw [scanPlain]
  simp only [show isBreak '\n' = true by rfl, if_true, Gap.addBreak]
  exact scanPlain_breaks hvoids hk hrest acc _ _ rfl

/-- Before a colon that ends a key, a plain scalar ends. -/
theorem scanPlain_colon {rest : List Char} (hrest : atBlank rest = true) (indent : Int)
    (acc : List Char) (p : Position) :
    scanPlain false indent acc .none p (':' :: rest) =
      some ⟨acc.reverse, false, p, ':' :: rest⟩ := by
  rw [scanPlain]
  simp [show isBreak ':' = false by rfl, show isBlank ':' = false by rfl, isStrayColon,
    endsPlain, hrest, Gap.isBreak]

end RunPlan.Yaml
