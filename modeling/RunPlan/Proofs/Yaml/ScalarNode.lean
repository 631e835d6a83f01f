import RunPlan.Proofs.Yaml.Literal
import RunPlan.Proofs.Yaml.Quoted
import RunPlan.Proofs.Yaml.Scalar
import RunPlan.Yaml.Strict

/-!
# Scalars after an indicator are read back

After the colon of a key or the dash of an item, a scalar stands on the same line, or is a
literal block. The reader takes it for a key first. It is one only if a colon follows, and
what the writer puts after a scalar never starts with a colon (`Follows`).

## Key results

- `textStyle_spec`: what the style of a text says about it
- `IsScalar.readsBack`: a scalar is read back
-/

namespace RunPlan.Yaml

open Text

variable {fuel k column : Nat} {path : NodePath} {indent : Int} {same keys : Bool}
  {c : Cursor} {n : Node} {cs rest : List Char}

/-! ## Scalars on their line -/

/-- At the start of a node on its line there are no properties, and no block starts. -/
theorem StartsInline.marks {cs : List Char} (h : StartsInline cs) (hc : c.At column keys cs) :
    scanProperties false c = some ({}, c) ∧ c.atChar '|' = false ∧ c.atChar '>' = false ∧
      ∀ mark, mark = '-' ∨ mark = '?' ∨ mark = ':' → c.atIndicator mark = false := by
  obtain ⟨d, cs, rfl⟩ := List.exists_cons_of_ne_nil h.ne_nil
  have hhead := h.head d rfl
  simp only [List.mem_cons, List.not_mem_nil, or_false, not_or] at hhead
  obtain ⟨hand, hbang, hbar, hfold, -⟩ := hhead
  have hchar (mark : Char) (hmark : d ≠ mark) : c.atChar mark = false := by
    simp [Cursor.atChar, hc.rest, hmark]
  refine ⟨?_, hchar _ hbar, hchar _ hfold, fun mark hmark => ?_⟩
  · rw [scanProperties]
    simp [Cursor.atProperty, hchar _ hand, hchar _ hbang]
  · simp only [Cursor.atIndicator, hc.rest, Bool.and_eq_false_imp, beq_iff_eq]
    rintro rfl
    exact h.indicator _ _ rfl hmark

/-- A node on its line is taken for a key first. -/
theorem StartsInline.blockContent_eq {cs : List Char} (h : StartsInline cs)
    (hc : c.At column keys cs) (hend : c.atEnd = false) (hindent : indent < column) :
    blockContent strictDialect (fuel + 1) path indent same {} c =
      match blockKey strictDialect fuel path indent c with
      | .ok (key, c₂) => do
        let (value, c₃) ← blockNode strictDialect fuel (key.step :: path) column true
          ((c₂.skip 1).allowKeys false)
        blockMapping strictDialect fuel path column {} [(key, value)] c₃
      | .error (.duplicateKey p k) => .error (.duplicateKey p k)
      | .error .malformed =>
        (inlineNode strictDialect fuel path indent {} c).getD (.error .malformed) := by
  obtain ⟨hprops, hbar, hfold, hindicator⟩ := h.marks hc
  have hlt : ¬ (column : Int) < indent := by omega
  have hne : ¬ (column : Int) = indent := by omega
  rw [blockContent]
  simp only [hend, hc.column, hindicator '-' (by simp), hindicator '?' (by simp),
    hbar, hfold, hprops, hlt, hne, orMalformed, Props.isEmpty,
    Props.merge?, bind, Except.bind, beq_iff_eq, decide_false,
    Bool.false_eq_true, if_false, Option.isNone_none, Option.isSome_none, Bool.and_self,
    Bool.not_true, Bool.false_and, Bool.or_self, Option.or_none, if_true]
  cases inlineNode strictDialect fuel path indent {} c <;> rfl

/-- A node is read on its line as the node after an indicator, unless it is a key. -/
theorem StartsInline.blockContent_inline {cs : List Char} (h : StartsInline cs)
    (hc : c.At column keys cs) (hend : c.atEnd = false) (hindent : indent < column)
    {c' : Cursor}
    (hread : inlineNode strictDialect fuel path indent {} c = some (.ok (n, c')))
    (hcolon : (c'.toToken false).atIndicator ':' = false) :
    blockContent strictDialect (fuel + 1) path indent same {} c = .ok (n, c') := by
  obtain ⟨hprops, -⟩ := h.marks hc
  have hkey : blockKey strictDialect fuel path indent c = .error .malformed := by
    rw [blockKey, hprops]
    simp [orMalformed, hread, hcolon, bind, Except.bind]
  rw [h.blockContent_eq hc hend hindent, hkey, hread]
  rfl

/-- At the start of a scalar no collection starts. -/
theorem StartsScalar.inlineNode_eq {cs : List Char} (h : StartsScalar cs)
    (hc : c.At column keys cs) (fuel : Nat) (path : NodePath) (indent : Int) :
    inlineNode strictDialect fuel path indent {} c =
      inlineScalar strictDialect false indent {} c := by
  obtain ⟨d, cs, rfl⟩ := List.exists_cons_of_ne_nil h.ne_nil
  have hscalar := h.scalar d rfl
  simp only [List.mem_cons, List.not_mem_nil, or_false, not_or] at hscalar
  obtain ⟨hstar, hbracket, hbrace⟩ := hscalar
  have hchar (mark : Char) (hmark : d ≠ mark) : c.atChar mark = false := by
    simp [Cursor.atChar, hc.rest, hmark]
  rw [inlineNode]
  simp [hchar _ hstar, hchar _ hbracket, hchar _ hbrace]

/-- A scalar that has a value becomes a node. -/
theorem scalarNode_eq (plain : Bool) (s : Scanned)
    (hvalue : plain = true → (plainValue (String.ofList s.text)).isSome = true) (c : Cursor) :
    scalarNode strictDialect {} plain s c =
      .ok (.scalar none plain (String.ofList s.text), c.after s) := by
  have haccepts : strictDialect.accepts (.scalar none plain (String.ofList s.text)) = true := by
    cases plain with
    | true => exact hvalue rfl
    | false => rfl
  rw [scalarNode, finishNode, Option.filter_none, if_pos haccepts]
  rfl

/-- What is read of a plain scalar. -/
theorem IsPlainScalar.inlineScalar_eq {cs : List Char} (h : IsPlainScalar cs)
    (tail : List Char) (hrest : c.rest = cs ++ tail) :
    inlineScalar strictDialect false indent {} c =
      some (orMalformed (scanPlain false (indent + 1) [] .none c.pos (cs ++ tail)) >>=
        fun s => scalarNode strictDialect {} true s c) := by
  obtain ⟨-, hplain, hquotes⟩ := h.startsScalar tail
  rw [inlineScalar, hrest]
  split
  · rename_i heq
    exact absurd rfl (hquotes '\'' (by simp [heq])).1
  · rename_i heq
    exact absurd rfl (hquotes '"' (by simp [heq])).2
  · rw [if_pos hplain]

/-- What is read of a plain scalar that is followed by void lines and a token further left. -/
theorem IsPlainScalar.inlineScalar_voids {cs : List Char} (h : IsPlainScalar cs)
    {voids : List (List Char)} (hvoids : ∀ line ∈ voids, isVoidLine line = true)
    (hc : c.At column keys (cs ++ '\n' :: (unlines voids ++ (pad k ++ rest))))
    (hindent : indent ≤ column) (hk : k ≤ indent) (hrest : StartsToken rest) :
    ∃ p' rest' q, inlineScalar strictDialect false indent {} c =
        some (scalarNode strictDialect {} true ⟨cs, true, p', rest'⟩ c) ∧
      q.column = k ∧ Cursor.gap false false true p' rest' = (true, q, rest) := by
  have hcolumn := hc.column
  have hscan := h.scanPlain_eq (indent + 1) (p := c.pos) (by omega)
    ('\n' :: (unlines voids ++ (pad k ++ rest)))
  obtain ⟨p', rest', q, hvoid, hgap⟩ := scanPlain_voids hvoids
    (show (k : Int) < indent + 1 by omega) hrest cs.reverse (c.pos.advance cs.length)
  rw [hvoid, List.reverse_reverse] at hscan
  refine ⟨p', rest', q, ?_, hgap⟩
  rw [h.inlineScalar_eq _ hc.rest, hscan]
  rfl

/-- A plain scalar with a value is read up to the token after it. -/
theorem IsPlainScalar.inlineScalar_line {cs : List Char} (h : IsPlainScalar cs)
    (hvalue : (plainValue (String.ofList cs)).isSome = true) {voids : List (List Char)}
    (hvoids : ∀ line ∈ voids, isVoidLine line = true)
    (hc : c.At column keys (cs ++ '\n' :: (unlines voids ++ (pad k ++ rest))))
    (hindent : indent ≤ column) (hk : k ≤ indent) (hrest : StartsToken rest) :
    ∃ c', inlineScalar strictDialect false indent {} c =
      some (.ok (.scalar none true (String.ofList cs), c')) ∧ c'.Before k rest := by
  obtain ⟨p', rest', q, hread, hq, hgap⟩ := h.inlineScalar_voids hvoids hc hindent hk hrest
  refine ⟨c.after ⟨cs, true, p', rest'⟩, ?_,
    Cursor.before_of_gap hq hgap hc.anchors hc.handles⟩
  rw [hread]
  exact congrArg some (scalarNode_eq true ⟨cs, true, p', rest'⟩ (fun _ => hvalue) c)

/-- A quoted text that has been read, at the end of its line. -/
private theorem scalarNode_quoted {text : String} {p : Position}
    (hc : c.At column keys cs) (hrest : StartsToken rest)
    (hread : inlineScalar strictDialect false indent {} c =
      some (orMalformed (some ⟨text.toList, false, p, '\n' :: (pad k ++ rest)⟩) >>=
        fun s => scalarNode strictDialect {} false s c)) :
    ∃ c', inlineScalar strictDialect false indent {} c =
      some (.ok (.scalar none false text, c')) ∧ c'.Before k rest := by
  have hnode := scalarNode_eq false ⟨text.toList, false, p, '\n' :: (pad k ++ rest)⟩ nofun c
  rw [String.ofList_toList] at hnode
  exact ⟨_, hread.trans (congrArg some hnode),
    Cursor.At.before_newline ⟨rfl, rfl, rfl, hc.anchors, hc.handles⟩ hrest⟩

/-- A text between single quotes up to the end of its line. -/
theorem inlineScalar_singleQuoted {text : String} {n : Nat} (hn : 0 < n)
    (hsingle : allowsSingleQuotes text.toList = true) (hfeed : '\n' ∉ text.toList)
    (hc : c.At column keys (singleQuoted n text.toList ++ '\n' :: (pad k ++ rest)))
    (hrest : StartsToken rest) :
    ∃ c', inlineScalar strictDialect false indent {} c =
      some (.ok (.scalar none false text, c')) ∧ c'.Before k rest := by
  have hquote : ('\n' :: (pad k ++ rest)).head? ≠ some '\'' := by simp
  obtain ⟨p', hscan⟩ := scanSingle_singleQuoted hn hquote hsingle hfeed (p := c.pos.next)
    (by simp [Position.next])
  have htext : c.rest = '\'' :: (singleQuotedBody n false text.toList ++
      '\'' :: ('\n' :: (pad k ++ rest))) := by
    simp [hc.rest, singleQuoted]
  apply scalarNode_quoted (p := p') hc hrest
  rw [inlineScalar, htext, ← hscan]
  rfl

/-- A text between double quotes up to the end of its line. -/
theorem inlineScalar_doubleQuoted {text : String}
    (hc : c.At column keys (doubleQuoted text.toList ++ '\n' :: (pad k ++ rest)))
    (hrest : StartsToken rest) :
    ∃ c', inlineScalar strictDialect false indent {} c =
      some (.ok (.scalar none false text, c')) ∧ c'.Before k rest := by
  have hscan := scanDouble_doubleQuoted text.toList ('\n' :: (pad k ++ rest))
    (p := c.pos.next) (by simp [Position.next])
  have htext : c.rest = '"' :: (text.toList.flatMap escapeChar ++
      '"' :: ('\n' :: (pad k ++ rest))) := by
    simp [hc.rest, doubleQuoted]
  apply scalarNode_quoted (p := _) hc hrest
  rw [inlineScalar, htext, ← hscan]
  rfl

/-! ## Scalars after an indicator -/

/-- What may follow, in a column `k`, a node after an indicator in a column `indent`: a token that
    is no colon. In the column of a key it is no dash either, since a sequence may stand there. -/
structure Follows (lead : Lead) (indent k : Nat) (rest : List Char) : Prop where
  le : k ≤ indent
  token : StartsToken rest
  colon : ∀ tail, rest = ':' :: tail → atBlank tail = false
  dash : lead = .key → k = indent → ∀ tail, rest = '-' :: tail → atBlank tail = false

/-- Further left the same may follow as in the column of the indicator. -/
theorem Follows.of_lt {lead : Lead} {indent indent' : Nat} (h : Follows lead indent k rest)
    (hlt : k < indent') (lead' : Lead) : Follows lead' indent' k rest :=
  ⟨Nat.le_of_lt hlt, h.token, h.colon, fun _ heq => absurd heq (Nat.ne_of_lt hlt)⟩

/-- What may follow a value after its key may follow an item. -/
theorem Follows.item {lead : Lead} {indent : Nat} (h : Follows lead indent k rest) :
    Follows .item indent k rest :=
  ⟨h.le, h.token, h.colon, nofun⟩

/-- Nothing may follow. -/
theorem Follows.nil {indent : Nat} (h : k ≤ indent) (lead : Lead) : Follows lead indent k [] :=
  ⟨h, nofun, nofun, nofun⟩

/-- A node on its line may follow. -/
theorem StartsInline.follows {cs : List Char} (h : StartsInline cs) {indent : Nat}
    (hle : k ≤ indent) (lead : Lead) : Follows lead indent k cs where
  le := hle
  token := h.token
  colon tail heq := h.indicator ':' tail heq (by simp)
  dash _ _ tail heq := h.indicator '-' tail heq (by simp)

/-- An indicator is followed by a blank. -/
theorem Cursor.At.atIndicator_eq_false {mark : Char} (hc : c.At column keys cs)
    (h : ∀ tail, cs = mark :: tail → atBlank tail = false) : c.atIndicator mark = false := by
  rw [Cursor.atIndicator, hc.rest]
  cases cs with
  | nil => rfl
  | cons d tail =>
    simp only [Bool.and_eq_false_imp, beq_iff_eq]
    rintro rfl
    exact h tail rfl

/-- A text after an indicator is read as a node, up to the next token. What stands after a dash
    starts right after it, and may be a mapping on the same line. -/
def ReadsAsNode (indent : Nat) (lead : Lead) (text : List Char) (n : Node) : Prop :=
  ∀ (fuel : Nat) (path : NodePath) ⦃k column : Nat⦄ ⦃keys : Bool⦄ ⦃c : Cursor⦄
    ⦃rest : List Char⦄,
    2 * text.length + 2 ≤ fuel →
    c.At column keys (text ++ (pad k ++ rest)) → indent < column →
    (lead = .item → column = indent + 1 ∧ keys = true) → Follows lead indent k rest →
    ∃ c', blockNode strictDialect fuel path indent (lead == .key) c = .ok (n, c') ∧
      c'.Before k rest

/-- A value is read back as a node from what is written after an indicator. -/
def ReadsBack (indent : Nat) (lead : Lead) (v : Value) (n : Node) : Prop :=
  ReadsAsNode indent lead (body indent lead v) n

/-- A node on its line is read after an indicator. -/
theorem StartsInline.blockNode_eq (h : StartsInline cs)
    (hc : c.At column keys (' ' :: cs)) (hindent : indent ≤ column)
    (hcolon' : ∀ tail, rest = ':' :: tail → atBlank tail = false)
    (hread : ∀ {c : Cursor}, c.At (column + 1) keys cs → ∃ c',
      inlineNode strictDialect fuel path indent {} c = some (.ok (n, c')) ∧ c'.Before k rest) :
    ∃ c', blockNode strictDialect (fuel + 2) path indent same c = .ok (n, c') ∧
      c'.Before k rest := by
  have htoken : (c.toToken false).At (column + 1) keys cs :=
    Cursor.At.toToken_pad (k := 1) hc h.token
  obtain ⟨c', hinline, hbefore⟩ := hread htoken
  have hend := htoken.atEnd_eq_false h.ne_nil
  have hcolon : (c'.toToken false).atIndicator ':' = false :=
    Cursor.At.atIndicator_eq_false hbefore hcolon'
  refine ⟨c', ?_, hbefore⟩
  rw [blockNode]
  exact h.blockContent_inline htoken hend (by omega) hinline hcolon

/-- A scalar on its line is read after an indicator. -/
theorem StartsScalar.blockNode_eq (h : StartsScalar cs)
    (hc : c.At column keys (' ' :: cs)) (hindent : indent ≤ column)
    (hcolon : ∀ tail, rest = ':' :: tail → atBlank tail = false)
    (hread : ∀ {c : Cursor}, c.At (column + 1) keys cs → ∃ c',
      inlineScalar strictDialect false indent {} c = some (.ok (n, c')) ∧ c'.Before k rest) :
    ∃ c', blockNode strictDialect (fuel + 2) path indent same c = .ok (n, c') ∧
      c'.Before k rest := by
  refine h.toStartsInline.blockNode_eq hc hindent hcolon fun hc' => ?_
  rw [h.inlineNode_eq hc']
  exact hread hc'

/-- A literal block is read after an indicator. -/
theorem blockNode_literal {text : String} {indent : Nat}
    (hliteral : allowsLiteral text.toList = true) (hne : text.toList ≠ [])
    (hc : c.At column keys
      (' ' :: (literal (indent + 2) text.toList ++ (pad k ++ rest))))
    (hindent : indent ≤ column) (hk : k ≤ indent) (hrest : StartsToken rest) :
    ∃ c', blockNode strictDialect (fuel + 2) path indent same c =
      .ok (.scalar none false text, c') ∧ c'.Before k rest := by
  obtain ⟨tail, htail⟩ : ∃ tail, literal (indent + 2) text.toList = '|' :: tail := ⟨_, rfl⟩
  rw [htail, List.cons_append] at hc
  have htoken : (c.toToken false).At (column + 1) keys ('|' :: (tail ++ (pad k ++ rest))) :=
    Cursor.At.toToken_pad (k := 1) hc (.cons (by decide) _)
  obtain ⟨p', hp', hscan⟩ := scanBlock_literal (show k ≤ indent + 1 by omega) hrest
    hliteral hne (c.toToken false).pos.next
  rw [htail, List.drop_succ_cons, List.drop_zero] at hscan
  refine ⟨(c.toToken false).after ⟨text.toList, true, p', rest⟩, ?_,
    Cursor.At.before ⟨rfl, hp', rfl, htoken.anchors, htoken.handles⟩ hrest⟩
  have hnode := scalarNode_eq false ⟨text.toList, true, p', rest⟩ nofun (c.toToken false)
  rw [String.ofList_toList] at hnode
  have hlt : ¬ (column : Int) + 1 < indent := by omega
  have hscalar : blockContent strictDialect (fuel + 1) path indent same {} (c.toToken false) =
      blockScalar strictDialect indent {} (c.toToken false) := by
    rw [blockContent]
    simp [Cursor.atEnd, Cursor.atIndicator, Cursor.atChar, htoken.rest, htoken.column, hlt]
  have hfold : (c.toToken false).atChar '>' = false := by
    simp [Cursor.atChar, htoken.rest]
  rw [blockNode, hscalar, blockScalar, hfold, htoken.rest, List.drop_succ_cons,
    List.drop_zero, show strictDialect.endsLine = false from rfl, hscan]
  exact hnode

/-- A plain scalar is read after an indicator, with the void lines after it. -/
theorem IsPlainScalar.readsAsNode {lead : Lead} {text : String} {indent : Nat}
    (h : IsPlainScalar text.toList) (hvalue : (plainValue text).isSome = true)
    {voids : List (List Char)} (hvoids : ∀ line ∈ voids, isVoidLine line = true) :
    ReadsAsNode indent lead (' ' :: (text.toList ++ '\n' :: unlines voids)) (.ofPlain text) := by
  intro fuel path k column keys c rest hfuel hc hindent _ hrest
  obtain ⟨fuel, rfl⟩ : ∃ f, fuel = f + 2 := ⟨fuel - 2, by omega⟩
  rw [List.cons_append, List.append_assoc, List.cons_append] at hc
  refine (h.startsScalar _).1.blockNode_eq hc (by omega) hrest.colon fun hc' => ?_
  have hvalue' : (plainValue (String.ofList text.toList)).isSome = true := by
    rwa [String.ofList_toList]
  have hread := h.inlineScalar_line hvalue' hvoids hc'
    (show (indent : Int) ≤ column + 1 by omega) (Int.ofNat_le.mpr hrest.le) hrest.token
  rwa [String.ofList_toList] at hread

/-- A plain scalar without a value is malformed. -/
theorem IsPlainScalar.blockNode_malformed {text : String} (h : IsPlainScalar text.toList)
    (hvalue : plainValue text = none) {voids : List (List Char)}
    (hvoids : ∀ line ∈ voids, isVoidLine line = true)
    (hc : c.At column keys (' ' :: (text.toList ++ '\n' :: (unlines voids ++ (pad k ++ rest)))))
    (hindent : indent ≤ column) (hk : k ≤ indent) (hrest : StartsToken rest) :
    blockNode strictDialect (fuel + 2) path indent same c = .error .malformed := by
  obtain ⟨hstart, -, -⟩ := h.startsScalar ('\n' :: (unlines voids ++ (pad k ++ rest)))
  have htoken : (c.toToken false).At (column + 1) keys
      (text.toList ++ '\n' :: (unlines voids ++ (pad k ++ rest))) :=
    Cursor.At.toToken_pad (k := 1) hc hstart.token
  have hend := htoken.atEnd_eq_false (by simp)
  obtain ⟨p', rest', q, hread, -⟩ := h.inlineScalar_voids hvoids htoken
    (show indent ≤ (column + 1 : Nat) by omega) hk hrest
  have hnode : scalarNode strictDialect {} true ⟨text.toList, true, p', rest'⟩
      (c.toToken false) = .error .malformed := by
    have haccepts : strictDialect.accepts (.scalar none true text) = false := by
      show (plainValue text).isSome = false
      rw [hvalue]
      rfl
    rw [scalarNode, finishNode, Option.filter_none, String.ofList_toList, haccepts]
    rfl
  rw [hnode] at hread
  obtain ⟨hprops, -⟩ := hstart.marks htoken
  rw [← hstart.inlineNode_eq htoken fuel path indent] at hread
  have hkey : blockKey strictDialect fuel path indent (c.toToken false) =
      .error .malformed := by
    rw [blockKey, hprops]
    simp [orMalformed, hread, bind, Except.bind]
  rw [blockNode, hstart.blockContent_eq htoken hend (by omega), hkey, hread]
  rfl

/-- A dash alone is malformed where no collection may start. -/
theorem blockNode_dash_malformed (hc : c.At column false (' ' :: '-' :: '\n' :: rest))
    (hindent : indent ≤ column) :
    blockNode strictDialect (fuel + 2) path indent same c = .error .malformed := by
  have htoken : (c.toToken false).At (column + 1) false ('-' :: '\n' :: rest) :=
    Cursor.At.toToken_pad (k := 1) hc (.cons (by decide) _)
  have hend := htoken.atEnd_eq_false (by simp)
  have hdash : (c.toToken false).atIndicator '-' = true := by
    rw [Cursor.atIndicator, htoken.rest]
    rfl
  have hlt : ¬ (column : Int) + 1 < indent := by omega
  rw [blockNode, blockContent]
  simp [hend, hdash, htoken.column, htoken.keys, hlt]

/-- What is written without quotes is read back. -/
theorem IsPlainScalar.readsBack {lead : Lead} {v : Value} {text : String} {indent : Nat}
    (h : IsPlainScalar text.toList) (hvalue : (plainValue text).isSome = true)
    (hbody : body indent lead v = ' ' :: (text.toList ++ ['\n'])) :
    ReadsBack indent lead v (.ofPlain text) := by
  rw [ReadsBack, hbody]
  exact h.readsAsNode hvalue forall_isVoidLine_nil

/-- A quote starts a scalar. -/
theorem startsScalar_quote {q : Char} (hq : q = '\'' ∨ q = '"') (cs : List Char) :
    StartsScalar (q :: cs) where
  ne_nil := by simp
  token := by
    rintro c ⟨⟩
    rcases hq with rfl | rfl <;> decide
  head := by
    rintro c ⟨⟩
    rcases hq with rfl | rfl <;> decide
  indicator := by
    rintro c tail ⟨⟩ hc
    rcases hq with rfl | rfl <;> exact absurd hc (by decide)
  scalar := by
    rintro c ⟨⟩
    rcases hq with rfl | rfl <;> decide

/-- What the style of a text says about it. -/
theorem textStyle_spec (text : String) :
    match textStyle text with
    | .plain => plainValue text = some (.string text) ∧ IsPlainScalar text.toList
    | .singleQuoted => allowsSingleQuotes text.toList = true ∧ '\n' ∉ text.toList
    | .doubleQuoted => True
    | .literal => allowsLiteral text.toList = true ∧ text.toList ≠ [] := by
  have hempty (h : isPlainText text = true) : text.toList ≠ [] := by
    rintro hnil
    obtain rfl : text = "" := String.toList_eq_nil_iff.mp hnil
    exact absurd h (by decide)
  -- only a text with a line feed is written over several lines
  by_cases hfeed : text.toList.contains '\n' = true
  · have hne : text.toList ≠ [] := by
      intro hnil
      simp [hnil] at hfeed
    by_cases hliteral : allowsLiteral text.toList = true
    · rw [show textStyle text = .literal by rw [textStyle, if_pos hfeed, if_pos hliteral]]
      exact ⟨hliteral, hne⟩
    · rw [show textStyle text = .doubleQuoted by rw [textStyle, if_pos hfeed, if_neg hliteral]]
      trivial
  have hline : '\n' ∉ text.toList := by simpa using hfeed
  by_cases hplain : (isPlainText text && allowsPlain text.toList) = true
  · rw [show textStyle text = .plain by rw [textStyle, if_neg hfeed, if_pos hplain]]
    rw [Bool.and_eq_true] at hplain
    exact ⟨plainValue_of_isPlainText hplain.1, .of_allowsPlain (hempty hplain.1) hplain.2⟩
  by_cases hsingle : allowsSingleQuotes text.toList = true
  · rw [show textStyle text = .singleQuoted by
      rw [textStyle, if_neg hfeed, if_neg hplain, if_pos hsingle]]
    exact ⟨hsingle, hline⟩
  · rw [show textStyle text = .doubleQuoted by
      rw [textStyle, if_neg hfeed, if_neg hplain, if_neg hsingle]]
    trivial

/-- Without quotes is only what may be. -/
theorem allowsPlain_of_textStyle {text : String} (h : textStyle text = .plain) :
    isPlainText text = true ∧ allowsPlain text.toList = true := by
  rw [textStyle] at h
  split at h
  · split at h <;> cases h
  split at h
  · rename_i hplain
    exact Bool.and_eq_true_iff.mp hplain
  · split at h <;> cases h

/-- The text of a value on the rest of its line. -/
theorem body_atom {v : Value} {text : String} (h : atomText v = some text) (indent : Nat)
    (lead : Lead) : body indent lead v = ' ' :: (text.toList ++ ['\n']) := by
  cases v <;> simp_all [body, atomText]

/-- A quoted text is read back. -/
private theorem readsBack_quoted {lead : Lead} {text : String} {indent : Nat}
    {q : Char} (hq : q = '\'' ∨ q = '"')
    (hbody : body indent lead (.string text) = ' ' :: (q :: cs ++ ['\n']))
    (hread : ∀ {k column : Nat} {keys : Bool} {c : Cursor} {rest : List Char},
      c.At column keys (q :: cs ++ '\n' :: (pad k ++ rest)) → StartsToken rest →
        ∃ c', inlineScalar strictDialect false indent {} c =
          some (.ok (.scalar none false text, c')) ∧ c'.Before k rest) :
    ReadsBack indent lead (.string text) (.scalar none false text) := by
  intro fuel path k column keys c rest hfuel hc hindent _ hrest
  obtain ⟨fuel, rfl⟩ : ∃ f, fuel = f + 2 := ⟨fuel - 2, by omega⟩
  rw [hbody, List.cons_append, List.append_assoc, List.singleton_append] at hc
  exact (startsScalar_quote hq _).blockNode_eq hc (by omega) hrest.colon fun hc' =>
    hread hc' hrest.token

/-- A text is read back. -/
theorem readsBack_string (text : String) (indent : Nat) (lead : Lead) :
    ReadsBack indent lead (.string text) (.scalar none (textStyle text == .plain) text) := by
  have hspec := textStyle_spec text
  cases hstyle : textStyle text with
  | plain =>
    rw [hstyle] at hspec
    obtain ⟨hvalue, hplain⟩ := hspec
    have hbody : body indent lead (.string text) = ' ' :: (text.toList ++ ['\n']) := by
      rw [body, textLine, hstyle]
    exact hplain.readsBack (by rw [hvalue]; rfl) hbody
  | singleQuoted =>
    rw [hstyle] at hspec
    obtain ⟨hsingle, hfeed⟩ := hspec
    have hbody : body indent lead (.string text) =
        ' ' :: (singleQuoted (indent + 2) text.toList ++ ['\n']) := by
      rw [body, textLine, hstyle]
    exact readsBack_quoted (Or.inl rfl) hbody
      (inlineScalar_singleQuoted (Nat.succ_pos _) hsingle hfeed)
  | doubleQuoted =>
    have hbody : body indent lead (.string text) =
        ' ' :: (doubleQuoted text.toList ++ ['\n']) := by
      rw [body, textLine, hstyle]
    exact readsBack_quoted (Or.inr rfl) hbody inlineScalar_doubleQuoted
  | literal =>
    rw [hstyle] at hspec
    obtain ⟨hliteral, hne⟩ := hspec
    have hbody : body indent lead (.string text) =
        ' ' :: literal (indent + 2) text.toList := by
      rw [body, textLine, hstyle]
    intro fuel path k column keys c rest hfuel hc hindent _ hrest
    obtain ⟨fuel, rfl⟩ : ∃ f, fuel = f + 2 := ⟨fuel - 2, by omega⟩
    rw [hbody, List.cons_append] at hc
    exact blockNode_literal hliteral hne hc (by omega) hrest.le hrest.token

/-! ## Kinds of scalars -/

mutual

/-- The node as which a printed value is read back: a text is plain where it is written
    without quotes. -/
def writtenNode : Value → Node
  | .string s => .scalar none (textStyle s == .plain) s
  | .sequence items => .sequence none (writtenItems items)
  | .mapping entries => .mapping none (writtenEntries entries)
  | v => valueNode v

/-- The nodes of the items of a sequence. -/
def writtenItems : List Value → List Node
  | [] => []
  | v :: vs => writtenNode v :: writtenItems vs

/-- The nodes of the entries of a mapping. -/
def writtenEntries : List (Value × Value) → List (Node × Node)
  | [] => []
  | (k, v) :: rest => (writtenNode k, writtenNode v) :: writtenEntries rest

end

/-- The scalars of documents: integers have 64 bits, with or without a sign, and of what is not a
    number there is one kind. -/
inductive IsScalar : Value → Prop where
  | null : IsScalar .null
  | bool (b : Bool) : IsScalar (.bool b)
  | int {n : Int} (hlow : -2 ^ 63 ≤ n) (hhigh : n < 2 ^ 64) : IsScalar (.int n)
  | float {x : Binary64} (h : x.isNaN = true → x = .nan) : IsScalar (.float x)
  | string (s : String) : IsScalar (.string s)

/-- A numeral is a scalar. -/
theorem IsScalar.ofNat {n : Nat} (h : n < 2 ^ 64) : IsScalar (.int n) :=
  .int (by omega) (by omega)

/-- A finite number is a scalar. -/
theorem IsScalar.ofFinite {x : Binary64} (h : x.isFinite = true) : IsScalar (.float x) := by
  refine .float fun hnan => ?_
  simp_all [Binary64.isFinite, Binary64.isNaN]

/-- A number is written without quotes. -/
private theorem isPlainScalar_floatText {cs : List Char} (h : IsFloatText cs) :
    IsPlainScalar cs := by
  have hword {cs : List Char} (h : Binary64.IsUnsignedText cs) :
      ∀ c ∈ cs, isWordChar c = true := by
    intro c hc
    rcases h.mem c hc with hdigit | rfl | rfl | rfl
    · simp [isWordChar, isAlphanumeric, hdigit]
    all_goals rfl
  rcases h with h | ⟨body, rfl, h⟩
  · obtain ⟨c, hc, hdigit⟩ := h.head
    refine .of_word (by rintro rfl; cases hc) (by rintro rfl; cases hc; cases hdigit) (hword h)
  · obtain ⟨c, hc, -⟩ := h.head
    refine .of_word (by simp) (by rintro ⟨⟩; cases hc) fun d hd => ?_
    rcases List.mem_cons.mp hd with rfl | hd
    · rfl
    · exact hword h d hd

/-- Where a digit starts a text, or follows a minus sign, there is no marker. -/
private theorem startsLikeMarker_digit {c : Char} (hc : isDigit c = true) (cs : List Char) :
    startsLikeMarker (c :: cs) = false ∧ startsLikeMarker ('-' :: c :: cs) = false := by
  have hne : c ≠ '-' ∧ c ≠ '.' := by
    constructor <;> rintro rfl <;> exact Bool.noConfusion hc
  constructor
  · rw [startsLikeMarker]
    · rintro rest heq
      exact hne.1 (List.cons_eq_cons.mp heq).1
    · rintro rest heq
      exact hne.2 (List.cons_eq_cons.mp heq).1
  · rw [startsLikeMarker]
    · rintro rest heq
      exact hne.1 (List.cons_eq_cons.mp (List.cons_eq_cons.mp heq).2).1
    · rintro rest heq
      exact absurd (List.cons_eq_cons.mp heq).1 (by decide)

/-- A value and the text that stands for it without quotes. -/
structure IsAtom (v : Value) (text : String) : Prop where
  atom : atomText v = some text
  plain : IsPlainScalar text.toList
  marker : startsLikeMarker text.toList = false
  node : writtenNode v = .ofPlain text
  value : plainValue text = some v

/-- The digits of a numeral. -/
private theorem exists_digits (n : Nat) : ∃ c cs, Nat.toDigits 10 n = c :: cs ∧
    isDigit c = true ∧ ∀ d ∈ c :: cs, isWordChar d = true := by
  obtain ⟨c, cs, hcs⟩ := List.exists_cons_of_ne_nil (Numeral.toDigits_ne_nil n)
  have hdigit : ∀ d ∈ c :: cs, isDigit d = true := by
    rw [← hcs]
    exact fun _ => Numeral.isDigit_of_mem_toDigits
  refine ⟨c, cs, hcs, hdigit c List.mem_cons_self, fun d hd => ?_⟩
  simp [isWordChar, isAlphanumeric, hdigit d hd]

/-- An integer that is not negative stands for itself. -/
theorem isAtom_int {n : Nat} (hn : n < 2 ^ 64) :
    IsAtom (.int n) (Numeral.ofNat n) := by
  obtain ⟨c, cs, hcs, hdigit, hword⟩ := exists_digits n
  have htext : (Numeral.ofNat n).toList = c :: cs := by
    rw [Numeral.ofNat, String.toList_ofList, hcs]
  refine ⟨by rw [atomText, Numeral.ofInt_natCast], ?_, ?_, ?_, plainValue_ofNat hn⟩
  · rw [htext]
    refine .of_word (List.cons_ne_nil c cs) ?_ hword
    rintro ⟨⟩
    exact Bool.noConfusion hdigit
  · rw [htext]
    exact (startsLikeMarker_digit hdigit cs).1
  · rw [← Numeral.ofInt_natCast]
    rfl

/-- A negative integer stands for itself. -/
theorem isAtom_negative {n : Int} (hlow : -2 ^ 63 ≤ n) (hn : n < 0) :
    IsAtom (.int n) (Numeral.ofInt n) := by
  obtain ⟨c, cs, hcs, hdigit, hword⟩ := exists_digits n.natAbs
  have htext : (Numeral.ofInt n).toList = '-' :: c :: cs := by
    rw [Numeral.ofInt, if_pos hn, String.toList_append, Numeral.ofNat, hcs]
    simp
  refine ⟨rfl, ?_, ?_, rfl, plainValue_ofInt hlow (by omega)⟩
  · rw [htext]
    refine .of_word (List.cons_ne_nil _ _) (by simp) ?_
    exact List.forall_mem_cons.mpr ⟨rfl, hword⟩
  · rw [htext]
    exact (startsLikeMarker_digit hdigit cs).2

/-- A finite number stands for itself. -/
theorem isAtom_float {x : Binary64} (hx : x.isFinite = true) :
    IsAtom (.float x) x.toScientific := by
  have htext := floatText_of_isFinite hx
  have hlooks := isFloatText_toScientific hx
  refine ⟨by rw [atomText, htext], isPlainScalar_floatText hlooks, ?_, ?_,
    plainValue_toScientific hx⟩
  · rcases hlooks with h | ⟨body, hbody, h⟩
    · obtain ⟨c, hc, hdigit⟩ := h.head
      obtain ⟨cs, hcs⟩ := List.head?_eq_some_iff.mp hc
      rw [hcs]
      exact (startsLikeMarker_digit hdigit cs).1
    · obtain ⟨c, hc, hdigit⟩ := h.head
      obtain ⟨cs, rfl⟩ := List.head?_eq_some_iff.mp hc
      rw [hbody]
      exact (startsLikeMarker_digit hdigit cs).2
  · rw [← htext]
    rfl

/-- A word stands for a value. -/
private theorem isAtom_word {v : Value} {word : String} (hatom : atomText v = some word)
    (hnode : writtenNode v = .ofPlain word) (hvalue : plainValue word = some v)
    (hword : (!word.toList.isEmpty && word.toList != ['-'] && word.toList.all isWordChar &&
      !startsLikeMarker word.toList) = true) : IsAtom v word := by
  simp only [Bool.and_eq_true, Bool.not_eq_true', List.isEmpty_eq_false_iff, bne_iff_ne,
    List.all_eq_true] at hword
  obtain ⟨⟨⟨hne, hdash⟩, hall⟩, hmarker⟩ := hword
  exact ⟨hatom, .of_word hne hdash hall, hmarker, hnode, hvalue⟩

/-- What is not finite is a word. -/
private theorem isAtom_notFinite {x : Binary64} (hfinite : x.isFinite = false)
    (h : x.isNaN = true → x = .nan) : IsAtom (.float x) (Value.floatText x) := by
  cases hnan : x.isNaN with
  | true =>
    rw [h hnan]
    exact isAtom_word rfl rfl rfl (by decide)
  | false =>
    rw [← Binary64.infinity_isNegative hfinite hnan]
    cases x.isNegative with
    | true => exact isAtom_word rfl rfl rfl (by decide)
    | false => exact isAtom_word rfl rfl rfl (by decide)

/-- A scalar is a text, or stands for itself. -/
theorem IsScalar.isAtom_or {v : Value} (h : IsScalar v) :
    (∃ text, IsAtom v text) ∨ ∃ s, v = .string s := by
  cases h with
  | null => exact Or.inl ⟨"null", isAtom_word rfl rfl rfl (by decide)⟩
  | bool b =>
    cases b with
    | true => exact Or.inl ⟨"true", isAtom_word rfl rfl rfl (by decide)⟩
    | false => exact Or.inl ⟨"false", isAtom_word rfl rfl rfl (by decide)⟩
  | @int n hlow hhigh =>
    rcases Int.lt_or_le n 0 with hn | hn
    · exact Or.inl ⟨_, isAtom_negative hlow hn⟩
    · obtain ⟨m, rfl⟩ := Int.eq_ofNat_of_zero_le hn
      exact Or.inl ⟨_, isAtom_int (by omega)⟩
  | @float x hx =>
    cases hfinite : x.isFinite with
    | true => exact Or.inl ⟨_, isAtom_float hfinite⟩
    | false => exact Or.inl ⟨_, isAtom_notFinite hfinite hx⟩
  | string s => exact Or.inr ⟨s, rfl⟩

/-- A scalar is read back. -/
theorem IsScalar.readsBack {v : Value} (h : IsScalar v) (indent : Nat) (lead : Lead) :
    ReadsBack indent lead v (writtenNode v) := by
  rcases h.isAtom_or with ⟨text, hatom⟩ | ⟨s, rfl⟩
  · rw [hatom.node]
    exact hatom.plain.readsBack (by rw [hatom.value]; rfl) (body_atom hatom.atom indent lead)
  · rw [writtenNode]
    exact readsBack_string s indent lead

/-- The value of a node without a tag. -/
private theorem toValue_scalar (plain : Bool) (text : String) :
    (Node.scalar none plain text).toValue =
      if plain then plainValue text else some (.string text) := by
  have htag (v? : Option Value) : v?.map (withTag none) = v? := by
    cases v? <;> rfl
  rw [Node.toValue, htag]
  rfl

/-- The value of a plain scalar. -/
theorem toValue_ofPlain (text : String) : (Node.ofPlain text).toValue = plainValue text := by
  rw [Node.ofPlain, toValue_scalar, if_pos rfl]

/-- A scalar has the value it was written for. -/
theorem IsScalar.toValue_eq {v : Value} (h : IsScalar v) :
    (writtenNode v).toValue = some v := by
  rcases h.isAtom_or with ⟨text, hatom⟩ | ⟨s, rfl⟩
  · rw [hatom.node, toValue_ofPlain, hatom.value]
  · rw [writtenNode, toValue_scalar]
    split
    · rename_i hplain
      have hspec := textStyle_spec s
      rw [eq_of_beq hplain] at hspec
      exact hspec.1
    · rfl

end RunPlan.Yaml
