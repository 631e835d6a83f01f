import RunPlan.Proofs.Yaml.Cursor
import RunPlan.Yaml.ScalarReader

/-!
# Literal blocks are read back

A literal block has the lines of a text after the indentation. What the reader keeps of the
line ends after the last line with text is said in the header, and so is the indentation
where the text starts with a blank or an empty line.

The reader holds line ends back until it knows that a line with text follows.
`LiteralState` says which text its state stands for.

## Key results

- `LiteralState.scanLines_body`: the lines of a text lead to a state for the text
- `scanBlock_literal`: a literal block is read back
-/

namespace RunPlan.Yaml

/-! ## States -/

/-- A state between two lines or within one, after a text in reverse. -/
inductive LiteralState : (inText : Bool) → BlockState → List Char → Prop where
  /-- There were only empty lines. -/
  | blank {es : List Char} (hes : ∀ e ∈ es, isLineBreak e = true) (b : Bool) :
      LiteralState false ⟨[], none, es, b⟩ es
  /-- Within a line. -/
  | line {c : Char} (hc : isLineBreak c = false) (acc : List Char) (b : Bool) :
      LiteralState true ⟨c :: acc, none, [], b⟩ (c :: acc)
  /-- A line has ended, and then empty lines. -/
  | ended {c e : Char} {es : List Char} (hc : isLineBreak c = false)
      (he : isLineBreak e = true) (hes : ∀ e ∈ es, isLineBreak e = true) (acc : List Char)
      (b : Bool) :
      LiteralState false ⟨c :: acc, some e, es, b⟩ (es ++ e :: c :: acc)

variable {inText : Bool} {s : BlockState} {r : List Char} {chomp : Chomp} {indent : Nat}
  {p : Position} {cs : List Char}

/-- Within a line, the last character is no line end. -/
theorem LiteralState.eq_line {s : BlockState} (h : LiteralState true s r) :
    ∃ (c : Char) (acc : List Char) (b : Bool),
      isLineBreak c = false ∧ s = ⟨c :: acc, none, [], b⟩ ∧ r = c :: acc := by
  cases h with
  | line hc acc b => exact ⟨_, acc, b, hc, rfl, rfl⟩

/-- The indentation is passed. -/
theorem scanLines_pad {n : Nat} (hn : p.column + n ≤ indent) (s : BlockState)
    (cs : List Char) :
    scanLines false false chomp indent false s p (pad n ++ cs) =
      scanLines false false chomp indent false s (p.advance n) cs := by
  induction n generalizing p with
  | zero => rfl
  | succ n ih =>
    change scanLines false false chomp indent false s p (' ' :: (pad n ++ cs)) = _
    have hcolumn : p.column < indent := by omega
    rw [scanLines, if_pos ⟨hcolumn, rfl⟩, ih (by simp only [Position.next]; omega),
      Position.next_advance]

/-- A line end, of a line with text or of an empty one. -/
theorem LiteralState.scanLines_break (h : LiteralState inText s r) {c : Char}
    (hc : isPrintable c = true) (hbreak : isLineBreak c = true) (chomp : Chomp)
    (indent : Nat) (p : Position) (cs : List Char) :
    ∃ s', LiteralState false s' (c :: r) ∧
      scanLines false false chomp indent inText s p (c :: cs) =
        scanLines false false chomp indent false s' p.newline cs := by
  have hbreak' : isBreak c = true := by rw [isBreak_of_isPrintable hc, hbreak]
  have hspace : c ≠ ' ' := by
    rintro rfl
    exact Bool.noConfusion hbreak
  have htab : c ≠ '\t' := by
    rintro rfl
    exact Bool.noConfusion hbreak
  have hmore {es : List Char} (hes : ∀ e ∈ es, isLineBreak e = true) :
      ∀ e ∈ c :: es, isLineBreak e = true := by
    simpa [hbreak] using hes
  cases h with
  | blank hes b =>
    refine ⟨⟨[], none, c :: _, b⟩, .blank (hmore hes) b, ?_⟩
    rw [scanLines]
    simp [hspace, htab, hbreak']
  | line hd acc b =>
    refine ⟨⟨_, some c, [], b⟩, .ended hd hbreak (List.forall_mem_nil _) acc b, ?_⟩
    rw [scanLines, if_pos hbreak']
  | ended hd he hes acc b =>
    refine ⟨⟨_, some _, c :: _, b⟩, .ended hd he (hmore hes) acc b, ?_⟩
    rw [scanLines]
    simp [hspace, htab, hbreak']

/-- A character of a line, the first one after the indentation or a later one. -/
theorem LiteralState.scanLines_char (h : LiteralState inText s r) {c : Char}
    (hc : isPrintable c = true) (hline : isLineBreak c = false)
    (hcolumn : inText = false → p.column = indent) (chomp : Chomp) (cs : List Char) :
    ∃ s', LiteralState true s' (c :: r) ∧
      scanLines false false chomp indent inText s p (c :: cs) =
        scanLines false false chomp indent true s' p.next cs := by
  have hbreak : isBreak c = false := by rw [isBreak_of_isPrintable hc, hline]
  cases h with
  | blank hes b =>
    refine ⟨_, .line hline _ (isBlank c), ?_⟩
    rw [scanLines]
    simp [hbreak, hcolumn rfl, BlockState.startLine]
  | line hd acc b =>
    refine ⟨_, .line hline _ b, ?_⟩
    rw [scanLines]
    simp [hbreak]
  | ended hd he hes acc b =>
    refine ⟨_, .line hline _ (isBlank c), ?_⟩
    rw [scanLines]
    simp [hbreak, hcolumn rfl, BlockState.startLine]

/-- The lines of a text are read. -/
theorem LiteralState.scanLines_body (h : LiteralState inText s r)
    (hprintable : ∀ c ∈ cs, isPrintable c = true) (hcolumn : inText = false → p.column = 0)
    (chomp : Chomp) (indent : Nat) (tail : List Char) :
    ∃ (inText' : Bool) (s' : BlockState) (p' : Position),
      LiteralState inText' s' (cs.reverse ++ r) ∧ (inText' = false → p'.column = 0) ∧
        scanLines false false chomp indent inText s p
            (literalBody indent (!inText) cs ++ tail) =
          scanLines false false chomp indent inText' s' p' tail := by
  induction cs generalizing inText s r p with
  | nil => exact ⟨inText, s, p, h, hcolumn, rfl⟩
  | cons c cs ih =>
    have hc := hprintable c List.mem_cons_self
    have hcs := fun d hd => hprintable d (List.mem_cons_of_mem c hd)
    rw [List.reverse_cons, List.append_assoc, List.singleton_append]
    by_cases hbreak : isLineBreak c = true
    · obtain ⟨s₁, h₁, hscan⟩ := h.scanLines_break hc hbreak chomp indent p
        (literalBody indent true cs ++ tail)
      obtain ⟨inText', s', p', h', hcolumn', hrest⟩ := ih h₁ (p := p.newline) hcs
        (fun _ => rfl)
      refine ⟨inText', s', p', h', hcolumn', ?_⟩
      rw [literalBody, if_pos hbreak, List.cons_append, hscan, ← hrest, Bool.not_false]
    · have hline : isLineBreak c = false := by simpa using hbreak
      -- the indentation is there exactly at the start of a line
      obtain ⟨p₁, hp₁, hpad⟩ : ∃ p₁ : Position, (inText = false → p₁.column = indent) ∧
          ∀ cs, scanLines false false chomp indent inText s p
            ((if (!inText) = true then pad indent else []) ++ cs) =
              scanLines false false chomp indent inText s p₁ cs := by
        cases inText with
        | true => exact ⟨p, nofun, fun cs => rfl⟩
        | false =>
          refine ⟨p.advance indent, fun _ => ?_, fun cs => ?_⟩
          · simp [Position.advance, hcolumn rfl]
          · rw [Bool.not_false, if_pos rfl, scanLines_pad]
            rw [hcolumn rfl]
            omega
      obtain ⟨s₁, h₁, hscan⟩ := h.scanLines_char hc hline hp₁ chomp
        (literalBody indent false cs ++ tail)
      obtain ⟨inText', s', p', h', hcolumn', hrest⟩ := ih h₁ (p := p₁.next) hcs nofun
      refine ⟨inText', s', p', h', hcolumn', ?_⟩
      rw [literalBody, if_neg hbreak, List.append_assoc, hpad, List.cons_append, hscan,
        ← hrest, Bool.not_true]

/-! ## The end -/

/-- The block ends before a token that stands further left. -/
theorem scanLines_token {k : Nat} {rest : List Char} (hk : k < indent)
    (hrest : StartsToken rest) (hcolumn : p.column = 0) (s : BlockState) :
    scanLines false false chomp indent false s p (pad k ++ rest) =
      some ⟨s.finish chomp, true, p.advance k, rest⟩ := by
  have hadvance : (p.advance k).column = k := by simp [Position.advance, hcolumn]
  rw [scanLines_pad (by omega)]
  cases rest with
  | nil => simp [scanLines, BlockState.atEnd]
  | cons c rest =>
    obtain ⟨hbreak, hblank, -⟩ := hrest c rfl
    simp only [isBlank, Bool.or_eq_false_iff, beq_eq_false_iff_ne] at hblank
    have hne : k ≠ indent := by omega
    rw [scanLines]
    simp [hbreak, hblank, hadvance, hne]

/-- What a header keeps of the last line ends. -/
def chompOfHint : List Char → Chomp
  | ['-'] => .strip
  | ['+'] => .keep
  | _ => .clip

/-- Between lines, the last character is a line end. -/
theorem LiteralState.isLineBreak_head (h : LiteralState false s r) (hne : r ≠ []) :
    r.head?.any isLineBreak = true := by
  cases h with
  | blank hes b =>
    obtain ⟨e, es, rfl⟩ := List.exists_cons_of_ne_nil hne
    exact hes e List.mem_cons_self
  | @ended c e es hc he hes acc b =>
    cases es with
    | nil => exact he
    | cons e' es => exact hes e' List.mem_cons_self

/-- After a line end, the text is as far as its header says to keep it. -/
theorem LiteralState.finish_eq (h : LiteralState false s r) (hne : r ≠ []) :
    s.finish (chompOfHint (chompHint r.reverse)) = r.reverse := by
  rw [chompHint, List.reverse_reverse]
  cases h with
  | blank hes b =>
    obtain ⟨e, es, rfl⟩ := List.exists_cons_of_ne_nil hne
    have he := hes e List.mem_cons_self
    have hbefore : (es.isEmpty || es.head?.any isLineBreak) = true := by
      cases es with
      | nil => rfl
      | cons e' es => simp [hes e' (by simp)]
    simp [he, hbefore, chompOfHint, BlockState.finish]
  | @ended c e es hc he hes acc b =>
    cases es with
    | nil => simp [hc, he, chompOfHint, BlockState.finish]
    | cons e' es =>
      have hbefore : isLineBreak (es.head?.getD e) = true := by
        cases es with
        | nil => exact he
        | cons e'' es => exact hes e'' (by simp)
      simp [hes e' (by simp), hbefore, chompOfHint, BlockState.finish]

/-- The text ends as its header says. -/
theorem LiteralState.scanLines_end (h : LiteralState inText s cs.reverse) (hne : cs ≠ [])
    {k : Nat} {rest : List Char} (hk : k < indent) (hrest : StartsToken rest)
    (hcolumn : inText = false → p.column = 0) :
    ∃ p' : Position, p'.column = k ∧
      scanLines false false (chompOfHint (chompHint cs)) indent inText s p
          ((if cs.getLast?.any isLineBreak then [] else ['\n']) ++ (pad k ++ rest)) =
        some ⟨cs, true, p', rest⟩ := by
  rw [← List.head?_reverse]
  cases inText with
  | false =>
    have hne' : cs.reverse ≠ [] := by simpa using hne
    have hlast := h.isLineBreak_head hne'
    have hfinish := h.finish_eq hne'
    rw [List.reverse_reverse] at hfinish
    refine ⟨p.advance k, by simp [Position.advance, hcolumn rfl], ?_⟩
    rw [if_pos hlast, List.nil_append, scanLines_token hk hrest (hcolumn rfl), hfinish]
  | true =>
    obtain ⟨c, acc, b, hc, rfl, hr⟩ := h.eq_line
    have hchomp : chompHint cs = ['-'] := by simp [chompHint, hr, hc]
    refine ⟨p.newline.advance k, by simp [Position.advance, Position.newline], ?_⟩
    rw [hchomp, hr, if_neg (by simp [hc]), List.singleton_append, scanLines,
      if_pos (show isBreak '\n' = true by rfl), scanLines_token hk hrest rfl]
    simp [chompOfHint, BlockState.finish, ← hr]

/-! ## The header -/

/-- The header is read as it was written. -/
theorem scanHeader_hints (cs tail : List Char) :
    scanHeader (indentHint cs ++ chompHint cs ++ '\n' :: tail) =
      (chompOfHint (chompHint cs), (indentHint cs).head?.bind indentOf, '\n' :: tail) := by
  have hchomp : chompHint cs = ['-'] ∨ chompHint cs = ['+'] ∨ chompHint cs = [] := by
    unfold chompHint
    split <;> [exact Or.inl rfl; split]
    · exact Or.inl rfl
    · split
      · exact Or.inr (Or.inl rfl)
      · exact Or.inr (Or.inr rfl)
  unfold indentHint
  split <;> rcases hchomp with h | h | h <;> rw [h] <;> rfl

/-- Without a hint the first line shows the indentation. -/
theorem detectIndent_pad (n column : Nat) {c : Char} (hspace : c ≠ ' ') (htab : c ≠ '\t')
    (hbreak : isBreak c = false) (cs : List Char) :
    detectIndent column 0 (pad n ++ c :: cs) = some (column + n) := by
  induction n generalizing column with
  | zero =>
    change detectIndent column 0 (c :: cs) = _
    simp [detectIndent, hspace, htab, hbreak]
  | succ n ih =>
    change detectIndent column 0 (' ' :: (pad n ++ c :: cs)) = _
    rw [detectIndent, if_pos rfl, ih]
    congr 1
    omega

/-- A literal block is read back, up to the first token after it. -/
theorem scanBlock_literal {parent k : Nat} {cs rest : List Char} (hk : k ≤ parent + 1)
    (hrest : StartsToken rest) (hliteral : allowsLiteral cs = true) (hne : cs ≠ [])
    (p : Position) :
    ∃ p' : Position, p'.column = k ∧
      scanBlock false false parent p ((literal (parent + 2) cs).drop 1 ++ (pad k ++ rest)) =
        some ⟨cs, true, p', rest⟩ := by
  simp only [allowsLiteral, needsEscapes, Bool.and_eq_true, Bool.not_eq_true',
    Bool.or_eq_false_iff, Bool.not_eq_false', List.all_eq_true] at hliteral
  obtain ⟨⟨hprintable, -⟩, -⟩ := hliteral
  let tail := (if cs.getLast?.any isLineBreak then [] else ['\n']) ++ (pad k ++ rest)
  have htext : (literal (parent + 2) cs).drop 1 ++ (pad k ++ rest) =
      indentHint cs ++ chompHint cs ++ '\n' :: (literalBody (parent + 2) true cs ++ tail) := by
    simp [literal, tail]
  have hread (p : Position) (hp : p.column = 0) : ∃ p' : Position, p'.column = k ∧
      scanLines false false (chompOfHint (chompHint cs)) (parent + 2) false {} p
        (literalBody (parent + 2) true cs ++ tail) = some ⟨cs, true, p', rest⟩ := by
    have hblank : LiteralState false {} [] := .blank (List.forall_mem_nil _) false
    obtain ⟨inText, s', p₁, hstate, hp₁, hbody⟩ := hblank.scanLines_body hprintable
      (fun _ => hp) (chompOfHint (chompHint cs)) (parent + 2) tail
    rw [List.append_nil] at hstate
    obtain ⟨p', hp', hend⟩ := hstate.scanLines_end hne (show k < parent + 2 by omega) hrest
      hp₁
    exact ⟨p', hp', hbody.trans hend⟩
  have hheaderEnd (p : Position) (cs : List Char) :
      scanHeaderEnd false p ('\n' :: cs) = some (p.newline, cs) := by
    rw [scanHeaderEnd, if_pos (show isBreak '\n' = true by rfl)]
  rw [htext, scanBlock, scanHeader_hints]
  dsimp only
  rw [hheaderEnd]
  dsimp only
  -- the indentation is given where the text starts with a blank, and found out where it does not
  by_cases hhint : cs.head?.any (fun c => isSpace c || isLineBreak c) = true
  · have hindent : (max (parent : Int) 0).toNat + 2 = parent + 2 := by omega
    rw [indentHint, if_pos hhint]
    simp only [List.head?_cons, Option.bind_some, show indentOf '2' = some 2 by rfl, hindent]
    exact hread _ rfl
  · obtain ⟨c, cs, rfl⟩ := List.exists_cons_of_ne_nil hne
    simp only [List.head?_cons, Option.any_some, Bool.or_eq_true, not_or, Bool.not_eq_true]
      at hhint
    obtain ⟨hspace, hline⟩ := hhint
    have hc := hprintable c List.mem_cons_self
    have hblank := isBlank_of_isPrintable hc
    rw [hspace, isBlank, Bool.or_eq_false_iff, beq_eq_false_iff_ne, beq_eq_false_iff_ne]
      at hblank
    have hbreak : isBreak c = false := by rw [isBreak_of_isPrintable hc, hline]
    have hindent : max (0 + (parent + 2)) (max ((parent : Int) + 1) 1).toNat = parent + 2 := by
      omega
    have hdetect : detectIndent 0 0 (literalBody (parent + 2) true (c :: cs) ++ tail) =
        some (0 + (parent + 2)) := by
      rw [literalBody, if_neg (by simp [hline]), if_pos rfl, List.append_assoc,
        List.cons_append, detectIndent_pad _ _ hblank.1 hblank.2 hbreak]
    rw [indentHint, if_neg (by simp [hspace, hline])]
    simp only [List.head?_nil, Option.bind_none, hdetect, Option.map_some, hindent]
    exact hread _ rfl

end RunPlan.Yaml
