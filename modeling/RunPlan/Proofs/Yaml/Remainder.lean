import RunPlan.Yaml.Reader
import Mathlib.Data.List.Basic

/-!
# What is left of a text

Every reader leaves an end of the text that it was given. So the last character of what is
left, if anything is, remains the last character of the document. Where that one ends a line,
it makes no difference whether the end of the text would (`EndsLine`).

## Key results

- `scanPlain_suffix`, `scanSingle_suffix`, `scanDouble_suffix`, `scanBlock_suffix`:
  readers of scalars
- `scanProperties_suffix`: the reader of anchors and tags
- `EndsLine.scanBlock_eq`: a block scalar where the last line has an end
-/

namespace RunPlan.Yaml

variable {p : Position} {cs cs' : List Char} {s : Scanned}

/-! ## Plain and quoted scalars -/

/-- What is left of a text is left of it after one more character. -/
theorem suffix_cons_of_suffix {c : Char} (h : cs' <:+ cs) : cs' <:+ c :: cs :=
  h.trans (List.suffix_cons c cs)

/-- The next token. -/
theorem gap_suffix (flow comment keys : Bool) (p : Position) (cs : List Char) :
    (Cursor.gap flow comment keys p cs).2.2 <:+ cs := by
  fun_induction Cursor.gap flow comment keys p cs with
  | case1 => exact List.suffix_refl _
  | case2 _ _ _ _ _ _ ih => exact suffix_cons_of_suffix ih
  | case3 _ _ _ _ _ _ _ ih => exact suffix_cons_of_suffix ih
  | case4 _ _ _ _ _ _ ih => exact suffix_cons_of_suffix ih
  | case5 => exact List.suffix_refl _

/-- The end of a plain scalar. -/
theorem scanPlain_suffix {flow : Bool} {indent : Int} {acc : List Char} {g : Gap}
    (h : scanPlain flow indent acc g p cs = some s) : s.rest <:+ cs := by
  induction cs generalizing acc g p with
  | nil =>
    obtain rfl := Option.some.inj h
    exact List.suffix_refl _
  | cons c cs ih =>
    unfold scanPlain at h
    dsimp only at h
    split at h
    · exact suffix_cons_of_suffix (ih h)
    split at h
    · split at h
      · cases h
      · exact suffix_cons_of_suffix (ih h)
    -- a word may start here, or one goes on
    split at h
    all_goals
      split at h
      · obtain rfl := Option.some.inj h
        exact List.suffix_refl _
      split at h
      · cases h
      split at h
      · obtain rfl := Option.some.inj h
        exact List.suffix_refl _
      · exact suffix_cons_of_suffix (ih h)

/-- The end of a single-quoted scalar. -/
theorem scanSingle_suffix {acc : List Char} {g : Gap}
    (h : scanSingle acc g p cs = some s) : s.rest <:+ cs := by
  fun_induction scanSingle acc g p cs with
  | case1 => cases h
  | case2 _ _ _ _ ih => exact suffix_cons_of_suffix (suffix_cons_of_suffix (ih h))
  | case3 =>
    obtain rfl := Option.some.inj h
    exact List.suffix_cons ..
  | case4 _ _ _ _ _ _ _ _ ih => exact suffix_cons_of_suffix (ih h)
  | case5 _ _ _ _ _ _ _ _ _ ih => exact suffix_cons_of_suffix (ih h)
  | case6 => cases h
  | case7 _ _ _ _ _ _ _ _ _ _ ih => exact suffix_cons_of_suffix (ih h)

/-- The end of a double-quoted scalar. -/
theorem scanDouble_suffix {state : QuotedState} {acc : List Char} {g : Gap}
    (h : scanDouble state acc g p cs = some s) : s.rest <:+ cs := by
  induction cs generalizing state acc g p with
  | nil => cases h
  | cons c cs ih =>
    cases state with
    | text =>
      rw [scanDouble] at h
      split at h
      · obtain rfl := Option.some.inj h
        exact List.suffix_cons ..
      split at h
      · exact suffix_cons_of_suffix (ih h)
      split at h
      · exact suffix_cons_of_suffix (ih h)
      split at h
      · cases h
      split at h
      · exact suffix_cons_of_suffix (ih h)
      · exact suffix_cons_of_suffix (ih h)
    | escape =>
      rw [scanDouble] at h
      split at h
      · exact suffix_cons_of_suffix (ih h)
      split at h
      · exact suffix_cons_of_suffix (ih h)
      · exact suffix_cons_of_suffix (ih h)
      · cases h
    | digits missing value =>
      rw [scanDouble] at h
      split at h
      · cases h
      split at h
      · exact suffix_cons_of_suffix (ih h)
      split at h
      · exact suffix_cons_of_suffix (ih h)
      · cases h

/-! ## Block scalars -/

/-- The header of a block scalar. -/
theorem scanHeader_suffix (cs : List Char) : (scanHeader cs).2.2 <:+ cs := by
  have hone (a : Char) (rest : List Char) : rest <:+ a :: rest := List.suffix_cons a rest
  have htwo (a b : Char) (rest : List Char) : rest <:+ a :: b :: rest :=
    suffix_cons_of_suffix (hone b rest)
  unfold scanHeader
  split
  · split
    · split
      · split
        · exact htwo ..
        · exact hone ..
      · exact hone ..
    · split
      · split
        · exact htwo ..
        · exact hone ..
      · exact hone ..
    · exact List.suffix_refl _
  · exact List.suffix_refl _

/-- What follows a header on its line. -/
theorem scanHeaderEnd_suffix {comment : Bool} {r : Position × List Char}
    (h : scanHeaderEnd comment p cs = some r) : r.2 <:+ cs := by
  fun_induction scanHeaderEnd comment p cs with
  | case1 =>
    obtain rfl := Option.some.inj h
    exact List.suffix_refl _
  | case2 =>
    obtain rfl := Option.some.inj h
    exact List.suffix_cons ..
  | case3 _ _ _ _ _ _ ih => exact suffix_cons_of_suffix (ih h)
  | case4 _ _ _ _ _ ih => exact suffix_cons_of_suffix (ih h)
  | case5 => cases h

/-- The end of the lines of a block scalar. -/
theorem scanLines_suffix {folds endsLine : Bool} {chomp : Chomp} {indent : Nat}
    {inText : Bool} {state : BlockState}
    (h : scanLines folds endsLine chomp indent inText state p cs = some s) :
    s.rest <:+ cs := by
  induction cs generalizing inText state p with
  | nil =>
    unfold scanLines at h
    obtain rfl := Option.some.inj h
    exact List.suffix_refl _
  | cons c cs ih =>
    cases inText with
    | true =>
      unfold scanLines at h
      split at h
      · exact suffix_cons_of_suffix (ih h)
      · exact suffix_cons_of_suffix (ih h)
    | false =>
      unfold scanLines at h
      dsimp only at h
      split at h
      · exact suffix_cons_of_suffix (ih h)
      split at h
      · cases h
      split at h
      · exact suffix_cons_of_suffix (ih h)
      split at h
      · exact suffix_cons_of_suffix (ih h)
      · obtain rfl := Option.some.inj h
        exact List.suffix_refl _

/-- The end of a block scalar. -/
theorem scanBlock_suffix {folds endsLine : Bool} {parent : Int}
    (h : scanBlock folds endsLine parent p cs = some s) : s.rest <:+ cs := by
  unfold scanBlock at h
  dsimp only at h
  split at h
  · cases h
  · rename_i hend
    have hheader := (scanHeaderEnd_suffix hend).trans (scanHeader_suffix cs)
    split at h
    · cases h
    · exact (scanLines_suffix h).trans hheader

/-! ## Tokens and properties -/

variable {c c' : Cursor} {props : Props}

theorem Cursor.toToken_suffix (flow : Bool) (c : Cursor) : (c.toToken flow).rest <:+ c.rest :=
  gap_suffix flow false c.keys c.pos c.rest

theorem Cursor.skip_suffix (n : Nat) (c : Cursor) : (c.skip n).rest <:+ c.rest :=
  List.drop_suffix n c.rest

/-- After one property. -/
theorem scanProperty_suffix {flow : Bool} (h : scanProperty flow c = some (props, c')) :
    c'.rest <:+ c.rest := by
  unfold scanProperty at h
  dsimp only at h
  split at h
  · split at h
    · obtain ⟨-, rfl⟩ := Prod.mk.inj (Option.some.inj h)
      exact Cursor.skip_suffix ..
    · cases h
  · split at h
    · obtain ⟨-, rfl⟩ := Prod.mk.inj (Option.some.inj h)
      exact Cursor.skip_suffix ..
    · cases h
  · cases h

/-- After the properties of a node. -/
theorem scanProperties_suffix {flow : Bool} (h : scanProperties flow c = some (props, c')) :
    c'.rest <:+ c.rest := by
  unfold scanProperties at h
  split at h
  · obtain ⟨-, rfl⟩ := Prod.mk.inj (Option.some.inj h)
    exact List.suffix_refl _
  split at h
  · cases h
  · rename_i first c₁ hfirst
    have htoken := (Cursor.toToken_suffix flow c₁).trans (scanProperty_suffix hfirst)
    dsimp only at h
    split at h
    · obtain ⟨-, rfl⟩ := Prod.mk.inj (Option.some.inj h)
      exact htoken
    split at h
    · cases h
    · rename_i second c₂ hsecond
      obtain ⟨_, -, hmerged⟩ := Option.map_eq_some_iff.mp h
      obtain ⟨-, rfl⟩ := Prod.mk.inj hmerged
      exact (Cursor.toToken_suffix flow c₂).trans ((scanProperty_suffix hsecond).trans htoken)

/-! ## The end of the last line -/

/-- A text whose last line has an end. -/
def EndsLine (cs : List Char) : Prop :=
  ∀ c ∈ cs.getLast?, isBreak c = true

/-- The last line of an end of a text ends where that of the text does. -/
theorem EndsLine.of_suffix (h : EndsLine cs) (hsuffix : cs' <:+ cs) : EndsLine cs' := by
  obtain ⟨before, rfl⟩ := hsuffix
  intro c hc
  apply h c
  rw [List.getLast?_append, hc]
  rfl

/-- Where the last line of a text ends, a block scalar does not run into the end of the
    text. The induction leaves open whether a line with text has been started, since then
    more of it must follow. -/
theorem EndsLine.scanLines_eq (h : EndsLine cs) (folds endsLine : Bool) (chomp : Chomp)
    (indent : Nat) {inText : Bool} (hmore : inText = true → cs ≠ []) (state : BlockState)
    (p : Position) :
    scanLines folds endsLine chomp indent inText state p cs =
      scanLines folds false chomp indent inText state p cs := by
  induction cs generalizing inText state p with
  | nil =>
    cases inText with
    | true => exact absurd rfl (hmore rfl)
    | false => simp [scanLines, BlockState.atEnd]
  | cons c cs ih =>
    have hrest : EndsLine cs := h.of_suffix (List.suffix_cons ..)
    -- a character of a line with text is not the last one
    have hgoes (hbreak : ¬ isBreak c = true) : cs ≠ [] := by
      rintro rfl
      exact hbreak (h c rfl)
    cases inText with
    | true =>
      unfold scanLines
      split
      · exact ih hrest (by simp) _ _
      · rename_i hbreak
        exact ih hrest (fun _ => hgoes hbreak) _ _
    | false =>
      unfold scanLines
      split
      · exact ih hrest (by simp) _ _
      split
      · rfl
      split
      · exact ih hrest (by simp) _ _
      rename_i hbreak
      split
      · exact ih hrest (fun _ => hgoes hbreak) _ _
      · rfl

/-- Where the last line of a text ends, a block scalar is read the same way by every
    kind of document. -/
theorem EndsLine.scanBlock_eq (h : EndsLine cs) (folds endsLine : Bool) (parent : Int)
    (p : Position) : scanBlock folds endsLine parent p cs = scanBlock folds false parent p cs := by
  unfold scanBlock
  dsimp only
  split
  · rfl
  · rename_i hend
    have hlines := h.of_suffix ((scanHeaderEnd_suffix hend).trans (scanHeader_suffix cs))
    split
    · rfl
    · exact hlines.scanLines_eq _ _ _ _ (by simp) _ _

end RunPlan.Yaml
