import RunPlan.Yaml.Cursor
import RunPlan.Yaml.Writer
import Mathlib.Data.List.Basic

/-!
# Moving to the next token

The writer ends every line with a line feed and starts the next one with blanks.
`Cursor.toToken` passes both and stops at the token, where it lets a key start. Where a
cursor stands in the lines of a text (`Cursor.At`) does not depend on how many of the
blanks before a token have been passed already (`Cursor.Before`).

## Key results

- `isBreak_of_isPrintable`: reader and writer agree on line ends
- `gap_pad`, `gap_newline`, `gap_token`: what is passed, and where it stops
- `gap_voids`: blank lines and comments are passed
- `At.before_voids`, `At.before_newline`, `At.before`: ways to stand before the same token
-/

namespace RunPlan.Yaml

/-! ## Characters -/

/-- Among printable characters, the reader and the writer mean the same line ends. -/
theorem isBreak_of_isPrintable {c : Char} (h : isPrintable c = true) :
    isBreak c = isLineBreak c := by
  have hreturn : (c == '\r') = false := by
    rw [beq_eq_false_iff_ne]
    rintro rfl
    exact Bool.noConfusion h
  have hnext : (c.toNat == 0x85) = false := by
    rw [beq_eq_false_iff_ne]
    intro hc
    simp [isPrintable, hc] at h
  rw [isBreak, isLineBreak, hreturn, hnext, Bool.or_false, Bool.or_false]

/-- A printable character is a blank exactly when it is a space. -/
theorem isBlank_of_isPrintable {c : Char} (h : isPrintable c = true) :
    isBlank c = isSpace c := by
  have htab : (c == '\t') = false := by
    rw [beq_eq_false_iff_ne]
    rintro rfl
    exact Bool.noConfusion h
  rw [isBlank, isSpace, htab, Bool.or_false]

/-- A text that is empty or starts with a token. -/
def StartsToken (cs : List Char) : Prop :=
  ∀ c ∈ cs.head?, isBreak c = false ∧ isBlank c = false ∧ c ≠ '#'

theorem StartsToken.cons {c : Char} (h : isBreak c = false ∧ isBlank c = false ∧ c ≠ '#')
    (cs : List Char) : StartsToken (c :: cs) := by
  intro d hd
  rwa [← Option.some.inj hd]

/-! ## Positions -/

/-- One character and then more. -/
theorem Position.next_advance (p : Position) (n : Nat) :
    p.next.advance n = p.advance (n + 1) := by
  simp [Position.next, Position.advance, Nat.add_assoc, Nat.add_comm 1 n]

/-- Several characters and then more. -/
theorem Position.advance_advance (p : Position) (m n : Nat) :
    (p.advance m).advance n = p.advance (m + n) := by
  simp [Position.advance, Nat.add_assoc]

/-! ## Gaps -/

/-- A token is not passed. -/
theorem gap_token {cs : List Char} (h : StartsToken cs) (flow keys : Bool) (p : Position) :
    Cursor.gap flow false keys p cs = (keys, p, cs) := by
  cases cs with
  | nil => rfl
  | cons c cs =>
    obtain ⟨hbreak, hblank, hhash⟩ := h c rfl
    simp only [isBlank, Bool.or_eq_false_iff] at hblank
    simp [Cursor.gap, hbreak, hblank, hhash]

/-- Blanks are passed. -/
theorem gap_pad (n : Nat) (flow keys : Bool) (p : Position) (cs : List Char) :
    Cursor.gap flow false keys p (pad n ++ cs) =
      Cursor.gap flow false keys (p.advance n) cs := by
  induction n generalizing p with
  | zero => rfl
  | succ n ih =>
    have hpad : pad (n + 1) ++ cs = ' ' :: (pad n ++ cs) := rfl
    rw [hpad, Cursor.gap]
    simp only [show isBreak ' ' = false by rfl, Bool.false_eq_true, if_false, beq_self_eq_true,
      Bool.or_true, Bool.true_or, if_true]
    rw [ih, Position.next_advance]

/-- The end of a line is passed, and a key may start after it. -/
theorem gap_newline (keys : Bool) (p : Position) (cs : List Char) :
    Cursor.gap false false keys p ('\n' :: cs) = Cursor.gap false false true p.newline cs := by
  rw [Cursor.gap]
  simp [isBreak]

/-! ## Lines without a token -/

/-- A line on which there is no token: it is blank, or holds only a comment. -/
def isVoidLine (line : List Char) : Bool :=
  line.all (!isBreak ·) && (line.dropWhile isSpace).head?.all (· == '#')

/-- A void line is blanks, and perhaps a comment after them. -/
theorem exists_of_isVoidLine {line : List Char} (h : isVoidLine line = true) :
    ∃ n comment, line = pad n ++ comment ∧ (∀ c ∈ comment, isBreak c = false) ∧
      (comment = [] ∨ comment.head? = some '#') := by
  simp only [isVoidLine, Bool.and_eq_true, List.all_eq_true, Bool.not_eq_true'] at h
  obtain ⟨hline, hcomment⟩ := h
  refine ⟨(line.takeWhile isSpace).length, line.dropWhile isSpace, ?_, ?_, ?_⟩
  · have hblanks : line.takeWhile isSpace = pad (line.takeWhile isSpace).length := by
      refine List.eq_replicate_iff.mpr ⟨rfl, fun c hc => ?_⟩
      exact eq_of_beq (List.all_eq_true.mp List.all_takeWhile c hc)
    rw [← hblanks, List.takeWhile_append_dropWhile]
  · exact fun c hc => hline c (List.dropWhile_subset _ hc)
  · cases hrest : line.dropWhile isSpace with
    | nil => exact .inl rfl
    | cons c cs =>
      rw [hrest] at hcomment
      exact .inr (congrArg some (eq_of_beq hcomment))

/-- The rest of a comment is passed with the end of its line. -/
theorem gap_comment {comment : List Char} (h : ∀ c ∈ comment, isBreak c = false) (keys : Bool)
    (p : Position) (cs : List Char) :
    Cursor.gap false true keys p (comment ++ '\n' :: cs) =
      Cursor.gap false false true (p.advance comment.length).newline cs := by
  induction comment generalizing p with
  | nil =>
    rw [List.nil_append, Cursor.gap]
    simp [isBreak, Position.advance]
  | cons c comment ih =>
    have hc : isBreak c = false := h c List.mem_cons_self
    rw [List.cons_append, Cursor.gap]
    simp only [hc, Bool.false_eq_true, if_false, Bool.true_or, if_true]
    rw [ih (fun d hd => h d (List.mem_cons_of_mem _ hd)), Position.next_advance,
      List.length_cons]

/-- What is on a void line is passed, from its comment on. -/
theorem gap_void {comment : List Char} (hline : ∀ c ∈ comment, isBreak c = false)
    (hcomment : comment = [] ∨ comment.head? = some '#') (keys : Bool) (p : Position)
    (cs : List Char) :
    Cursor.gap false false keys p (comment ++ '\n' :: cs) =
      Cursor.gap false false true (p.advance comment.length).newline cs := by
  cases comment with
  | nil =>
    rw [List.nil_append, gap_newline]
    rfl
  | cons c comment =>
    obtain rfl : c = '#' := by simpa using hcomment
    have hgap := gap_comment (fun d hd => hline d (List.mem_cons_of_mem _ hd)) keys p.next cs
    rw [Position.next_advance] at hgap
    rw [List.cons_append, Cursor.gap]
    simpa [isBreak] using hgap

/-- Void lines are passed. -/
theorem gap_voids {voids : List (List Char)} (h : ∀ line ∈ voids, isVoidLine line = true)
    {p : Position} (hp : p.column = 0) (cs : List Char) :
    ∃ q : Position, q.column = 0 ∧
      Cursor.gap false false true p (Text.unlines voids ++ cs) =
        Cursor.gap false false true q cs := by
  induction voids generalizing p with
  | nil => exact ⟨p, hp, rfl⟩
  | cons line voids ih =>
    obtain ⟨n, comment, rfl, hline, hcomment⟩ := exists_of_isVoidLine (h line List.mem_cons_self)
    obtain ⟨q, hq, hgap⟩ := ih (fun l hl => h l (List.mem_cons_of_mem _ hl))
      (p := ((p.advance n).advance comment.length).newline) rfl
    refine ⟨q, hq, ?_⟩
    rw [← hgap, ← gap_void hline hcomment true, ← gap_pad]
    simp [Text.unlines]

/-! ## Places -/

/-- A cursor in a document without anchors and tag prefixes, at a text in a column. -/
structure Cursor.At (c : Cursor) (column : Nat) (keys : Bool) (rest : List Char) : Prop where
  rest : c.rest = rest
  column : c.pos.column = column
  keys : c.keys = keys
  anchors : c.anchors = []
  handles : c.handles = []

/-- A cursor whose next token starts a line, the given text in a column. -/
def Cursor.Before (c : Cursor) (column : Nat) (rest : List Char) : Prop :=
  (c.toToken false).At column true rest

variable {c : Cursor} {column k : Nat} {keys : Bool} {rest : List Char}

/-- After an indicator the text goes on one column further right. -/
theorem Cursor.At.skip_one {d : Char} (h : c.At column keys (d :: rest)) (keys' : Bool) :
    ((c.skip 1).allowKeys keys').At (column + 1) keys' rest :=
  ⟨by simp [Cursor.allowKeys, Cursor.skip, h.rest],
    by simp [Cursor.allowKeys, Cursor.skip, Position.advance, h.column], rfl, h.anchors,
    h.handles⟩

/-- Within a line nothing ends the document but the end of the text. -/
theorem Cursor.At.atEnd_eq_false (h : c.At (column + 1) keys rest) (hne : rest ≠ []) :
    c.atEnd = false := by
  simp [Cursor.atEnd, h.rest, h.column, hne]

/-- At a token there is nothing to pass. -/
theorem Cursor.At.toToken_eq (h : c.At column keys rest) (hrest : StartsToken rest)
    (flow : Bool) : c.toToken flow = c := by
  have hgap := gap_token (h.rest.symm ▸ hrest) flow c.keys c.pos
  simp only [Cursor.toToken, hgap]

/-- From blanks on a line to the token after them. -/
theorem Cursor.At.toToken_pad (h : c.At column keys (pad k ++ rest))
    (hrest : StartsToken rest) : (c.toToken false).At (column + k) keys rest := by
  have hgap : Cursor.gap false false c.keys c.pos c.rest = (c.keys, c.pos.advance k, rest) := by
    rw [h.rest, gap_pad, gap_token hrest]
  simp only [Cursor.toToken, hgap]
  exact ⟨rfl, by simp [Position.advance, h.column], h.keys, h.anchors, h.handles⟩

/-- Before the first token of a line, void lines being passed. -/
theorem Cursor.before_of_gap {q : Position} (hq : q.column = k)
    (hgap : Cursor.gap false false c.keys c.pos c.rest = (true, q, rest))
    (hanchors : c.anchors = []) (hhandles : c.handles = []) : c.Before k rest := by
  simp only [Cursor.Before, Cursor.toToken, hgap]
  exact ⟨rfl, hq, rfl, hanchors, hhandles⟩

/-- Where there are no lines, all are void. -/
theorem forall_isVoidLine_nil : ∀ line ∈ ([] : List (List Char)), isVoidLine line = true :=
  List.forall_mem_nil _

/-- From the end of a line past void lines to the next token. -/
theorem Cursor.At.before_voids {voids : List (List Char)}
    (hvoids : ∀ line ∈ voids, isVoidLine line = true)
    (h : c.At column keys ('\n' :: (Text.unlines voids ++ (pad k ++ rest))))
    (hrest : StartsToken rest) : c.Before k rest := by
  obtain ⟨q, hq, hgap⟩ := gap_voids hvoids (p := c.pos.newline) rfl (pad k ++ rest)
  refine Cursor.before_of_gap (q := q.advance k) ?_ ?_ h.anchors h.handles
  · simp [Position.advance, hq]
  · rw [h.rest, gap_newline, hgap, gap_pad, gap_token hrest]

/-- From the end of a line to the first token of the next one. -/
theorem Cursor.At.before_newline (h : c.At column keys ('\n' :: (pad k ++ rest)))
    (hrest : StartsToken rest) : c.Before k rest :=
  Cursor.At.before_voids forall_isVoidLine_nil h hrest

/-- At a token that starts a line, the cursor stands before it. -/
theorem Cursor.At.before (h : c.At column true rest) (hrest : StartsToken rest) :
    c.Before column rest := by
  rw [Cursor.Before, h.toToken_eq hrest]
  exact h

end RunPlan.Yaml
