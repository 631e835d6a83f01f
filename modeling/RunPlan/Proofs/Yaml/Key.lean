import RunPlan.Proofs.Yaml.ScalarNode

/-!
# Keys are read back

A key stands on a line with the colon after it, without quotes or with them. The reader takes it
for a scalar, and for a key because the colon is on the same line and not too far away. The
writer puts long keys and keys of several lines another way.

## Key results

- `IsKey.blockKey_eq`: a key is read up to its colon
- `IsLineKey.isKey`: what the writer makes of a key that fits on a line
- `isLineKey_string_iff`: a text fits whenever the writer puts it on a line
- `isFieldName_spec`: names of fields are keys
-/

namespace RunPlan.Yaml

open Text

variable {fuel column : Nat} {path : NodePath} {indent : Int} {keys plain : Bool} {c : Cursor}
  {cs rest : List Char} {text : String}

/-! ## Keys -/

/-- Characters that are read as the key with a text, which is plain or in quotes. -/
structure IsKey (cs : List Char) (plain : Bool) (text : String) : Prop where
  starts (tail : List Char) : StartsScalar (cs ++ tail)
  marker (tail : List Char) : isMarker (cs ++ ':' :: tail) = false
  length : cs.length ≤ 1024
  reads {indent : Int} {column : Nat} {c : Cursor} {rest : List Char}
    (hrest : atBlank rest = true) (hc : c.At column true (cs ++ ':' :: rest))
    (hindent : indent ≤ column) :
    inlineScalar strictDialect false indent {} c = some (.ok (.scalar none plain text,
      c.after ⟨text.toList, false, c.pos.advance cs.length, ':' :: rest⟩))

/-- A key is read up to its colon. -/
theorem IsKey.blockKey_eq (h : IsKey cs plain text) (hrest : atBlank rest = true)
    (hc : c.At column true (cs ++ ':' :: rest)) (hindent : indent ≤ column) (fuel : Nat)
    (path : NodePath) :
    ∃ (c' : Cursor) (column' : Nat), column ≤ column' ∧ c'.At column' false (':' :: rest) ∧
      blockKey strictDialect fuel path indent c = .ok (.scalar none plain text, c') := by
  have hstart := h.starts (':' :: rest)
  obtain ⟨hprops, -⟩ := hstart.marks hc
  have hread := h.reads hrest hc hindent
  rw [← hstart.inlineNode_eq hc fuel path indent] at hread
  have hat : (c.after ⟨text.toList, false, c.pos.advance cs.length, ':' :: rest⟩).At
      (column + cs.length) false (':' :: rest) :=
    ⟨rfl, by simp [Cursor.after, Position.advance, hc.column], rfl, hc.anchors, hc.handles⟩
  refine ⟨_, _, Nat.le_add_right _ _, hat, ?_⟩
  have htoken := hat.toToken_eq (.cons (by decide) _) false
  have hcolon : (c.after ⟨text.toList, false, c.pos.advance cs.length,
      ':' :: rest⟩).atIndicator ':' = true := by
    rw [Cursor.atIndicator, hat.rest]
    exact hrest
  have hkey : c.keyFrom (c.after ⟨text.toList, false, c.pos.advance cs.length,
      ':' :: rest⟩) = true := by
    simp [Cursor.keyFrom, hc.keys, Cursor.after, Position.advance, h.length]
  rw [blockKey, hprops]
  simp only [orMalformed, hread, bind, Except.bind, htoken, hcolon, hkey, Bool.and_self,
    if_true]

/-- At a key the document does not end, and no long key starts. -/
theorem IsKey.start (h : IsKey cs plain text) (hc : c.At column keys (cs ++ ':' :: rest)) :
    c.atEnd = false ∧ c.atIndicator '?' = false := by
  have hstart := h.starts (':' :: rest)
  obtain ⟨-, -, -, hindicator⟩ := hstart.marks hc
  refine ⟨?_, hindicator '?' (by simp)⟩
  simp [Cursor.atEnd, hc.rest, h.marker rest]

/-! ## Plain keys -/

/-- Before a colon there is no marker that does not start the text. -/
theorem isMarker_colon (h : startsLikeMarker cs = false) (tail : List Char) :
    isMarker (cs ++ ':' :: tail) = false := by
  rcases cs with _ | ⟨a, _ | ⟨b, _ | ⟨c, cs⟩⟩⟩
  · simp [isMarker]
  · simp [isMarker]
  · simp [isMarker]
  · rw [List.cons_append, List.cons_append, List.cons_append, isMarker]
    · rintro rest heq
      simp only [List.cons.injEq] at heq
      obtain ⟨rfl, rfl, rfl, -⟩ := heq
      cases h
    · rintro rest heq
      simp only [List.cons.injEq] at heq
      obtain ⟨rfl, rfl, rfl, -⟩ := heq
      cases h

/-- A plain scalar with a value is a key. -/
theorem IsPlainScalar.isKey (h : IsPlainScalar text.toList)
    (hvalue : (plainValue text).isSome = true) (hmarker : startsLikeMarker text.toList = false)
    (hlength : text.toList.length ≤ 1024) : IsKey text.toList true text where
  starts tail := (h.startsScalar tail).1
  marker := isMarker_colon hmarker
  length := hlength
  reads {indent column c rest} hrest hc hindent := by
    -- a plain scalar ends at a colon with a blank after it
    have hcolumn := hc.column
    have hscan := h.scanPlain_eq (indent + 1) (p := c.pos) (by omega) (':' :: rest)
    rw [scanPlain_colon hrest, List.reverse_reverse] at hscan
    have hnode := scalarNode_eq true
      ⟨text.toList, false, c.pos.advance text.toList.length, ':' :: rest⟩
      (fun _ => by rwa [String.ofList_toList]) c
    rw [String.ofList_toList] at hnode
    rw [h.inlineScalar_eq _ hc.rest, hscan]
    exact congrArg some hnode

/-! ## Keys in quotes -/

/-- A text in quotes is read. -/
private theorem scalarNode_quotedKey {c : Cursor} {p : Position} :
    (orMalformed (some ⟨text.toList, false, p, ':' :: rest⟩) >>=
      fun s => scalarNode strictDialect {} false s c) =
        .ok (.scalar none false text, c.after ⟨text.toList, false, p, ':' :: rest⟩) := by
  have hnode := scalarNode_eq false ⟨text.toList, false, p, ':' :: rest⟩ nofun c
  rwa [String.ofList_toList] at hnode

/-- Before what is not a quote there is no marker. -/
private theorem isMarker_quote {q : Char} (hq : q = '\'' ∨ q = '"') (cs : List Char) :
    isMarker (q :: cs) = false := by
  rcases hq with rfl | rfl <;> simp [isMarker]

/-- A text on one line between single quotes is a key. -/
theorem isKey_singleQuoted (hprintable : ∀ c ∈ text.toList, isPrintable c = true)
    (hline : ∀ c ∈ text.toList, isLineBreak c = false)
    (hlength : (singleQuoted 0 text.toList).length ≤ 1024) :
    IsKey (singleQuoted 0 text.toList) false text where
  starts tail := startsScalar_quote (Or.inl rfl) _
  marker tail := isMarker_quote (Or.inl rfl) _
  length := hlength
  reads {indent column c rest} hrest hc hindent := by
    have htext : c.rest = '\'' :: (singleQuotedBody 0 false text.toList ++
        '\'' :: (':' :: rest)) := by
      simp [hc.rest, singleQuoted]
    have hend : (':' :: rest).head? ≠ some '\'' := by simp
    have hscan := scanSingle_oneLine hend hprintable hline 0 [] [] (p := c.pos.next)
      (Nat.succ_pos _)
    have hadvance : c.pos.next.advance ((singleQuotedBody 0 false text.toList).length + 1) =
        c.pos.advance (singleQuoted 0 text.toList).length := by
      rw [Position.next_advance]
      simp [singleQuoted, Nat.add_assoc]
    rw [blankGap, hadvance] at hscan
    rw [inlineScalar, htext]
    show some (orMalformed (scanSingle [] .none c.pos.next _) >>= _) = _
    rw [hscan]
    exact congrArg some scalarNode_quotedKey

/-- A text between double quotes is a key. -/
theorem isKey_doubleQuoted (hlength : (doubleQuoted text.toList).length ≤ 1024) :
    IsKey (doubleQuoted text.toList) false text where
  starts tail := startsScalar_quote (Or.inr rfl) _
  marker tail := isMarker_quote (Or.inr rfl) _
  length := hlength
  reads {indent column c rest} hrest hc hindent := by
    have htext : c.rest = '"' :: (text.toList.flatMap escapeChar ++ '"' :: (':' :: rest)) := by
      simp [hc.rest, doubleQuoted]
    have hscan := scanDouble_doubleQuoted text.toList (':' :: rest) (p := c.pos.next)
      (Nat.succ_pos _)
    have hadvance : c.pos.next.advance ((text.toList.flatMap escapeChar).length + 1) =
        c.pos.advance (doubleQuoted text.toList).length := by
      rw [Position.next_advance]
      simp [doubleQuoted, Nat.add_assoc]
    rw [hadvance] at hscan
    rw [inlineScalar, htext]
    show some (orMalformed (scanDouble .text [] .none c.pos.next _) >>= _) = _
    rw [hscan]
    exact congrArg some scalarNode_quotedKey

/-- A text on one line is a key as it is written. -/
theorem isKey_keyText (hline : ∀ c ∈ text.toList, isLineBreak c = false)
    (hlength : (keyText text).length ≤ 1024) :
    IsKey (keyText text) (textStyle text == .plain) text := by
  have hspec := textStyle_spec text
  rw [keyText] at hlength ⊢
  cases hstyle : textStyle text with
  | plain =>
    rw [hstyle] at hspec hlength
    obtain ⟨hvalue, hplain⟩ := hspec
    have hmarker : startsLikeMarker text.toList = false := by
      have hallows := (allowsPlain_of_textStyle hstyle).2
      simp only [allowsPlain, Bool.and_eq_true, Bool.not_eq_true'] at hallows
      exact hallows.1.1.2
    exact hplain.isKey (by rw [hvalue]; rfl) hmarker hlength
  | singleQuoted =>
    rw [hstyle] at hspec hlength
    have hallows := hspec.1
    simp only [allowsSingleQuotes, needsEscapes, Bool.and_eq_true, Bool.not_eq_true',
      Bool.or_eq_false_iff, Bool.not_eq_false', List.all_eq_true] at hallows
    exact isKey_singleQuoted hallows.1.1 hline hlength
  | doubleQuoted | literal =>
    rw [hstyle] at hlength
    exact isKey_doubleQuoted hlength

/-! ## Keys that fit on a line -/

/-- The text of a scalar. -/
def keyName : Value → String
  | .string s => s
  | k => (atomText k).getD ""

/-- Whether a scalar is written without quotes. -/
def isPlainKey : Value → Bool
  | .string s => textStyle s == .plain
  | _ => true

/-- A scalar that is not a text is a key as it is. -/
theorem IsAtom.simpleKey_eq {k : Value} (h : IsAtom k text) :
    simpleKey? k = some text.toList ∧ isPlainKey k = true ∧ keyName k = text := by
  have hword : simpleKey? k = (atomText k).map String.toList ∧ isPlainKey k = true ∧
      keyName k = (atomText k).getD "" := by
    cases k with
    | string => cases h.atom
    | _ => exact ⟨rfl, rfl, rfl⟩
  rwa [h.atom] at hword

/-- A scalar that the writer puts on a line as a key, near enough to its colon. -/
structure IsLineKey (k : Value) : Prop where
  scalar : IsScalar k
  fits : ∃ cs, simpleKey? k = some cs ∧ cs.length ≤ 1024

/-- What the writer makes of a key that fits on a line is read as that key. -/
theorem IsLineKey.isKey {k : Value} (h : IsLineKey k) :
    writtenNode k = .scalar none (isPlainKey k) (keyName k) ∧
      ∃ cs, simpleKey? k = some cs ∧ IsKey cs (isPlainKey k) (keyName k) := by
  obtain ⟨cs, hkey, hlength⟩ := h.fits
  rcases h.scalar.isAtom_or with ⟨text, hatom⟩ | ⟨s, rfl⟩
  · obtain ⟨hsimple, hplain, hname⟩ := hatom.simpleKey_eq
    obtain rfl : text.toList = cs := Option.some.inj (hsimple.symm.trans hkey)
    rw [hplain, hname]
    exact ⟨hatom.node, _, hkey,
      hatom.plain.isKey (by rw [hatom.value]; rfl) hatom.marker hlength⟩
  · have hsimple := hkey
    rw [simpleKey?] at hkey
    split at hkey
    · cases hkey
    rename_i hsmall
    rw [Bool.or_eq_true, not_or, Bool.not_eq_true, List.any_eq_false] at hsmall
    obtain rfl := Option.some.inj hkey
    exact ⟨by rw [writtenNode]; rfl, _, hsimple,
      isKey_keyText (by simpa using hsmall.1) hlength⟩

/-- Keys in a document are the same when they are the same as values. -/
theorem IsLineKey.sameKeyNode_eq {k k' : Value} (h : IsLineKey k) (h' : IsLineKey k') :
    sameKeyNode (writtenNode k) (writtenNode k') = k.sameKey k' := by
  rw [sameKeyNode, h.scalar.toValue_eq, h'.scalar.toValue_eq]

/-! ## Short texts -/

/-- An escape has at most six characters. -/
private theorem length_escapeChar_le (c : Char) : (escapeChar c).length ≤ 6 := by
  unfold escapeChar
  dsimp only
  split
  iterate 14
    decide
  split
  · exact Nat.le_add_left 1 5
  rename_i hprintable
  split
  · rw [List.length_append, length_hexDigits (by decide) (by omega)]
    decide
  split
  · rw [List.length_append, length_hexDigits (by decide) (by omega)]
    decide
  · -- all characters with larger codes are printable
    rename_i hlarge
    exact absurd (by simp [isPrintable]; omega) hprintable

/-- The inside of single quotes is at most twice as long as a text on one line. -/
private theorem length_singleQuotedBody_le {cs : List Char}
    (hline : ∀ c ∈ cs, isLineBreak c = false) :
    (singleQuotedBody 0 false cs).length ≤ 2 * cs.length := by
  induction cs with
  | nil => exact Nat.zero_le _
  | cons c cs ih =>
    have hrest := ih fun d hd => hline d (List.mem_cons_of_mem c hd)
    have hquote : (if c = '\'' then ['\'', '\''] else [c]).length ≤ 2 := by
      split <;> simp
    rw [singleQuotedBody, if_neg (by simp [hline c List.mem_cons_self]),
      if_neg Bool.false_ne_true, List.nil_append, List.length_append, List.length_cons]
    omega

/-- The inside of double quotes is at most six times as long as a text. -/
private theorem length_escapes_le (cs : List Char) :
    (cs.flatMap escapeChar).length ≤ 6 * cs.length := by
  induction cs with
  | nil => exact Nat.zero_le _
  | cons c cs ih =>
    have hc := length_escapeChar_le c
    rw [List.flatMap_cons, List.length_append, List.length_cons]
    omega

/-- A text has no more characters than bytes. -/
private theorem length_le_utf8ByteSize (cs : List Char) :
    cs.length ≤ (String.ofList cs).utf8ByteSize := by
  induction cs with
  | nil => exact Nat.zero_le _
  | cons c cs ih =>
    have hsize := c.utf8Size_pos
    rw [List.length_cons, ← List.singleton_append, String.ofList_append,
      String.utf8ByteSize_append]
    have hc : (String.ofList [c]).utf8ByteSize = c.utf8Size := String.utf8ByteSize_singleton
    omega

/-- A text is near enough to its colon whenever the writer puts it on a line as a key. -/
theorem isLineKey_string_iff {s : String} :
    IsLineKey (.string s) ↔ (simpleKey? (.string s)).isSome = true := by
  constructor
  · rintro ⟨-, cs, hcs, -⟩
    rw [hcs]
    rfl
  · intro h
    refine ⟨.string s, keyText s, ?_⟩
    rw [simpleKey?] at h ⊢
    split at h
    · cases h
    rename_i hsmall
    rw [if_neg hsmall]
    refine ⟨rfl, ?_⟩
    simp only [Bool.or_eq_true, decide_eq_true_eq, not_or, Bool.not_eq_true, List.any_eq_false,
      Nat.not_lt] at hsmall
    obtain ⟨hline, hbytes⟩ := hsmall
    -- quotes and escapes make at most six characters of one
    have hlength := length_le_utf8ByteSize s.toList
    rw [String.ofList_toList] at hlength
    have hsingle := @length_singleQuotedBody_le s.toList (by simpa using hline)
    have hdouble := length_escapes_le s.toList
    rw [keyText]
    cases textStyle s with
    | plain =>
      dsimp only
      omega
    | singleQuoted =>
      simp only [singleQuoted, List.length_append, List.length_singleton]
      omega
    | doubleQuoted | literal =>
      simp only [doubleQuoted, List.length_append, List.length_singleton]
      omega

/-! ## Names of fields -/

/-- Names that can be keys: words that are texts, written without quotes. -/
def isFieldName (name : String) : Bool :=
  name.toList.head?.any isLetter && name.toList.all isWordChar &&
    textStyle name == .plain && simpleKey? (.string name) == some name.toList &&
    name.toList.length ≤ 1024

/-- What holds of a name that can be a key. -/
structure IsFieldName (name : String) : Prop where
  letter : ∃ c ∈ name.toList.head?, isLetter c = true
  plain : IsPlainScalar name.toList
  node : writtenNode (.string name) = .ofPlain name
  value : plainValue name = some (.string name)
  key : simpleKey? (.string name) = some name.toList
  length : name.toList.length ≤ 1024

/-- The names that can be keys. -/
theorem isFieldName_spec {name : String} (h : isFieldName name = true) : IsFieldName name := by
  simp only [isFieldName, Bool.and_eq_true, beq_iff_eq, decide_eq_true_eq] at h
  obtain ⟨⟨⟨⟨hletter, hword⟩, hstyle⟩, hkey⟩, hlength⟩ := h
  have hspec := textStyle_spec name
  rw [hstyle] at hspec
  obtain ⟨hvalue, hplain⟩ := hspec
  rw [Option.any_eq_true] at hletter
  refine ⟨hletter, hplain, ?_, hvalue, hkey, hlength⟩
  rw [writtenNode, hstyle]
  rfl

/-- A name is a key as it is. -/
theorem IsFieldName.isKey {name : String} (h : IsFieldName name) :
    IsKey name.toList true name := by
  refine h.plain.isKey (by rw [h.value]; rfl) ?_ h.length
  obtain ⟨c, hc, hletter⟩ := h.letter
  obtain ⟨cs, hcs⟩ := List.head?_eq_some_iff.mp hc
  rw [hcs, startsLikeMarker]
  all_goals
    rintro rest heq
    rw [(List.cons_eq_cons.mp heq).1] at hletter
    cases hletter

/-- A name fits on a line as a key. -/
theorem IsFieldName.isLineKey {name : String} (h : IsFieldName name) :
    IsLineKey (.string name) :=
  isLineKey_string_iff.mpr (by rw [h.key]; rfl)

/-- The value of a key is its name. -/
theorem IsFieldName.toValue_eq {name : String} (h : IsFieldName name) :
    (Node.ofPlain name).toValue = some (.string name) := by
  rw [← h.node, (IsScalar.string name).toValue_eq]

end RunPlan.Yaml
