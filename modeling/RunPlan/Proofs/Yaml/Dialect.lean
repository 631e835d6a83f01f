import RunPlan.Proofs.Result
import RunPlan.Proofs.Yaml.Anchors

/-!
# Reading in another dialect

What is read inside brackets, and on one line, in a dialect that accepts whatever a stricter
one does, and finds no key twice in the mappings in question (`Extends`): the same nodes. The
nodes known by name may differ, as long as every complete node has its name (`Resolves`),
since the stricter dialect refuses a node inside itself.

## Key results

- `Extends.flowReads`: nodes inside brackets
- `Extends.contentNode`: what stands on a line after its properties, some of which may be
  left out
-/

namespace RunPlan.Yaml

/-- A dialect `e` reads what `d` reads, of nodes with a property that passes on to their
    parts. -/
structure Extends (d e : Dialect) (P : Node → Prop) : Prop where
  /-- A node inside itself is refused. -/
  reference : d.accepts (.reference none) = false
  accepts {n : Node} (h : d.accepts n = true) : e.accepts n = true
  scalar {tag : Option String} {plain : Bool} {text : String} (h : P (.scalar tag plain text)) :
    tag = none
  sequence {tag : Option String} {items : List Node} (h : P (.sequence tag items)) :
    tag = none ∧ ∀ n ∈ items, P n
  mapping {tag : Option String} {entries : List (Node × Node)} (h : P (.mapping tag entries)) :
    tag = none ∧ ∀ entry ∈ entries, P entry.1 ∧ P entry.2
  /-- No key is there twice. -/
  keys {tag : Option String} {entries : List (Node × Node)} (h : P (.mapping tag entries)) :
    entries.Pairwise fun a b => e.sameKey a.1 b.1 = false

variable {d e : Dialect} {P : Node → Prop} {c c' : Cursor} {l : Anchors} {n : Node}
  {props props' : Props} {indent : Int} {path : NodePath} {fuel : Nat} {α : Type}

/-- What one reader reads another one reads, whichever nodes are known by name. -/
def Mirrors (P : α → Prop) (read read' : Cursor → Except ReadError (α × Cursor)) : Prop :=
  ∀ ⦃c c' : Cursor⦄ ⦃l : Anchors⦄ ⦃a : α⦄, read c = .ok (a, c') → P a → Resolves c.anchors l →
    ∃ new, c.Moves c' new ∧ read' (c.withAnchors l) = .ok (a, c'.withAnchors (new ++ l))

/-- Collections follow up to where they are named; that the name is another one, or none,
    makes no difference before. -/
def MirrorsInside (P : Node → Prop) (read read' : Props → Cursor → Reading) : Prop :=
  ∀ ⦃props props' : Props⦄ ⦃c c' : Cursor⦄ ⦃l : Anchors⦄ ⦃n : Node⦄, props'.tag = props.tag →
    read props c = .ok (n, c') → P n → Resolves c.anchors l →
      n.isCollection = true ∧ ∃ c₁ new, c.Moves c₁ new ∧ c' = c₁.closeAnchor props.anchor n ∧
        read' props' (c.withAnchors l) =
          .ok (n, (c₁.withAnchors (new ++ l)).closeAnchor props'.anchor n)

/-- The nodes known by name further on. -/
theorem Resolves.moves {new : Anchors} (h : Resolves c.anchors l) (hmoves : c.Moves c' new) :
    Resolves c'.anchors (new ++ l) := by
  rw [hmoves.anchors]
  exact h.append new

/-- A result that was not malformed. -/
theorem orMalformed_eq_ok {x : Option α} {a : α} (h : orMalformed x = .ok a) : x = some a := by
  cases x with
  | none => cases h
  | some b => exact congrArg some (Except.ok.inj h)

/-! ## Ends of nodes -/

/-- The end of a node that is accepted. -/
theorem finishNode_eq (h : d.accepts n = true) (props : Props) (c : Cursor) :
    finishNode d props n c = .ok (n, c.closeAnchor props.anchor n) := by
  rw [finishNode, if_pos h]

/-- What a node ends with is the node itself. -/
theorem finishNode_eq_ok {m : Node} (h : finishNode d props n c = .ok (m, c')) :
    d.accepts n = true ∧ n = m ∧ c.closeAnchor props.anchor n = c' := by
  unfold finishNode at h
  split at h
  · rename_i haccepts
    exact ⟨haccepts, Prod.mk.inj (Except.ok.inj h)⟩
  · cases h

/-- The end of a node that is accepted by both dialects. -/
theorem Extends.finishNode (he : Extends d e P) {m : Node}
    (h : finishNode d props n c = .ok (m, c')) :
    n = m ∧ c' = c.closeAnchor props.anchor n ∧ ∀ props' c₁,
      finishNode e props' n c₁ = .ok (n, c₁.closeAnchor props'.anchor n) := by
  obtain ⟨haccepts, hm, hc'⟩ := finishNode_eq_ok h
  exact ⟨hm, hc'.symm, fun props' c₁ => finishNode_eq (he.accepts haccepts) props' c₁⟩

/-- An alias stands for the same node, unless it stands inside that node. -/
theorem Extends.aliasNode (he : Extends d e P) (hl : Resolves c.anchors l)
    (h : aliasNode d c = .ok (n, c')) :
    c.Moves c' [] ∧ aliasNode e (c.withAnchors l) = .ok (n, c'.withAnchors l) := by
  unfold Yaml.aliasNode at h ⊢
  rw [Cursor.withAnchors_rest, Cursor.withAnchors_anchors]
  split at h
  · cases h
  rename_i name rest hname
  split at h
  · cases h
  rename_i target htarget
  obtain ⟨rfl, rfl, hfinish⟩ := he.finishNode h
  obtain ⟨m, rfl⟩ : ∃ m, target = some m := by
    cases target with
    | none =>
      obtain ⟨haccepts, -⟩ := finishNode_eq_ok h
      rw [he.reference] at haccepts
      cases haccepts
    | some m => exact ⟨m, rfl⟩
  refine ⟨((Cursor.Moves.refl c).skip _).allowKeys false, ?_⟩
  simp only [hl name m htarget, hfinish]
  rfl

/-! ## Scalars -/

/-- The plain or quoted scalar that starts here: whether it is plain, and what is read. -/
def scanInline (flow : Bool) (indent : Int) (c : Cursor) : Option (Bool × Option Scanned) :=
  match c.rest with
  | '\'' :: cs => some (false, scanSingle [] .none c.pos.next cs)
  | '"' :: cs => some (false, scanDouble .text [] .none c.pos.next cs)
  | _ =>
    if startsPlain flow c.rest then
      some (true, scanPlain flow (indent + 1) [] .none c.pos c.rest)
    else none

/-- What a scalar holds does not depend on the dialect. -/
theorem inlineScalar_eq (d : Dialect) (flow : Bool) (indent : Int) (props : Props) (c : Cursor) :
    inlineScalar d flow indent props c = (scanInline flow indent c).map fun r =>
      orMalformed r.2 >>= fun s => scalarNode d props r.1 s c := by
  unfold inlineScalar scanInline
  cases c.rest with
  | nil => rfl
  | cons q cs =>
    by_cases hsingle : q = '\''
    · subst hsingle
      rfl
    by_cases hdouble : q = '"'
    · subst hdouble
      rfl
    · cases startsPlain flow (q :: cs) <;> simp [hsingle, hdouble]

/-- What is left after a plain or quoted scalar. -/
theorem scanInline_suffix {flow plain : Bool} {s : Scanned}
    (h : scanInline flow indent c = some (plain, some s)) : s.rest <:+ c.rest := by
  unfold scanInline at h
  split at h
  · rename_i cs hrest
    rw [hrest]
    exact suffix_cons_of_suffix (scanSingle_suffix (Prod.mk.inj (Option.some.inj h)).2)
  · rename_i cs hrest
    rw [hrest]
    exact suffix_cons_of_suffix (scanDouble_suffix (Prod.mk.inj (Option.some.inj h)).2)
  · split at h
    · exact scanPlain_suffix (Prod.mk.inj (Option.some.inj h)).2
    · cases h

/-! ## Fewer properties -/

/-- Properties of which some may have been left out. -/
structure Props.Within (p q : Props) : Prop where
  anchor : p.anchor = none ∨ p.anchor = q.anchor
  tag : p.tag = none ∨ p.tag = q.tag

theorem Props.Within.refl (p : Props) : p.Within p :=
  ⟨Or.inr rfl, Or.inr rfl⟩

/-- The properties on a line are among those of the node. -/
theorem Props.within_of_merge? {p q r : Props} (h : p.merge? q = some r) : q.Within r := by
  unfold merge? at h
  split at h
  · cases h
  · rename_i honce
    obtain rfl := Option.some.inj h
    simp only [Bool.or_eq_true, Bool.and_eq_true, not_or, not_and] at honce
    obtain ⟨anchor, tag⟩ := p
    obtain ⟨anchor', tag'⟩ := q
    constructor
    · cases anchor <;> cases anchor' <;> simp_all
    · cases tag <;> cases tag' <;> simp_all

/-- Without properties there is none to leave out. -/
theorem Props.Within.eq_of_isEmpty (h : props'.Within props) (hempty : props.isEmpty = true) :
    props' = props := by
  obtain ⟨anchor, tag⟩ := props
  obtain ⟨anchor', tag'⟩ := props'
  simp only [Props.isEmpty, Bool.and_eq_true, Option.isNone_iff_eq_none] at hempty
  obtain ⟨hanchor, htag⟩ := h
  simp_all

/-- The name of a node that is being read may be left out. -/
theorem Resolves.announced_within (hl : Resolves c.anchors l) (h : props'.Within props) :
    Resolves (announced props.anchor ++ c.anchors) (announced props'.anchor ++ l) := by
  cases h.anchor with
  | inl hnone =>
    rw [hnone]
    exact fun name n hname => hl name n (Resolves.of_announced _ _ name n hname)
  | inr hsame =>
    rw [hsame]
    exact hl.append _

/-- The end of a scalar. -/
theorem Extends.finishScalar (he : Extends d e P) {c₁ : Cursor} {plain : Bool} {text : String}
    (hmoves : c.Moves c₁ []) (hprops : props'.Within props) (hn : P n)
    (h : Yaml.finishNode d props (.scalar (props.tag.filter (· ≠ "!")) plain text) c₁ =
      .ok (n, c')) (l : Anchors) :
    ∃ l', Yaml.finishNode e props' (.scalar (props'.tag.filter (· ≠ "!")) plain text)
        (c₁.withAnchors l) = .ok (n, c'.withAnchors l') ∧
      (props' = props → ∃ new, c.Moves c' new ∧ l' = new ++ l) := by
  obtain ⟨hnode, hend, hfinish⟩ := he.finishNode h
  have hleaf : n.isCollection = false := by rw [← hnode]; rfl
  have htag : props'.tag.filter (· ≠ "!") = props.tag.filter (· ≠ "!") := by
    rw [← hnode] at hn
    cases hprops.tag with
    | inl hnone => rw [he.scalar hn, hnone, Option.filter_none]
    | inr hsame => rw [hsame]
  rw [hnode] at hend hfinish
  rw [hend]
  refine ⟨named props'.anchor n ++ l, ?_, fun hsame => ⟨_, hmoves.closeLeaf hleaf _, ?_⟩⟩
  · rw [htag, hnode, hfinish, Cursor.closeAnchor_leaf hleaf, Cursor.closeAnchor_leaf hleaf]
    rfl
  · rw [hsame]

/-! ## Collections in brackets -/

/-- Where the reading of a collection in brackets goes on: at its end, or at its next part. -/
def bracketStep (close : Char) (first : Bool) (c : Cursor) : Option (Bool × Cursor) :=
  let c := c.toToken true
  if c.atChar close then some (true, c)
  else if !first && !c.atChar ',' then none
  else
    let c := if first then c else ((c.skip 1).allowKeys true).toToken true
    some (!first && c.atChar close, c)

/-- The step does not depend on what is known by name. -/
theorem bracketStep_withAnchors (close : Char) (first : Bool) (c : Cursor) (l : Anchors) :
    bracketStep close first (c.withAnchors l) =
      (bracketStep close first c).map fun r => (r.1, r.2.withAnchors l) := by
  unfold bracketStep
  simp only [Cursor.withAnchors_toToken, Cursor.withAnchors_atChar]
  by_cases hclose : (c.toToken true).atChar close = true
  · simp only [hclose, if_true, Option.map_some]
  by_cases hcomma : (!first && !(c.toToken true).atChar ',') = true
  · simp only [hclose, hcomma, if_true, if_false, Bool.false_eq_true, Option.map_none]
  · simp only [hclose, hcomma, if_false, Bool.false_eq_true, Option.map_some]
    cases first <;> rfl

/-- The step passes blanks, and perhaps a comma. -/
theorem bracketStep_moves {close : Char} {first done : Bool}
    (h : bracketStep close first c = some (done, c')) : c.Moves c' [] := by
  have htoken := (Cursor.Moves.refl c).toToken true
  unfold bracketStep at h
  dsimp only at h
  split at h
  · obtain ⟨-, rfl⟩ := Prod.mk.inj (Option.some.inj h)
    exact htoken
  split at h
  · cases h
  · obtain ⟨-, rfl⟩ := Prod.mk.inj (Option.some.inj h)
    split
    · exact htoken
    · exact ((htoken.skip 1).allowKeys true).toToken true

theorem flowSequence_succ (d : Dialect) (indent : Int) (fuel : Nat) (path : NodePath)
    (props : Props) (items : List Node) (first : Bool) (c : Cursor) :
    flowSequence d indent (fuel + 1) path props items first c =
      match bracketStep ']' first c with
      | none => .error .malformed
      | some (true, c) =>
        finishNode d props (.sequence props.tag items.reverse) ((c.skip 1).allowKeys false)
      | some (false, c) => flowItem d indent fuel (.index items.length :: path) c >>= fun r =>
        flowSequence d indent fuel path props (r.1 :: items) false r.2 := by
  rw [flowSequence, bracketStep]
  dsimp only
  split
  · rfl
  split
  · rfl
  cases first with
  | true => rfl
  | false =>
    simp only [Bool.false_eq_true, if_false, Bool.not_false, Bool.true_and]
    split
    · rename_i hclose
      rw [hclose]
    · rename_i hclose
      rw [Bool.not_eq_true] at hclose
      rw [hclose]

theorem flowMapping_succ (d : Dialect) (indent : Int) (fuel : Nat) (path : NodePath)
    (props : Props) (entries : List (Node × Node)) (first : Bool) (c : Cursor) :
    flowMapping d indent (fuel + 1) path props entries first c =
      match bracketStep '}' first c with
      | none => .error .malformed
      | some (true, c) =>
        finishNode d props (.mapping props.tag entries.reverse) ((c.skip 1).allowKeys false)
      | some (false, c) => flowEntry d indent fuel path entries c >>= fun r =>
        flowMapping d indent fuel path props (r.1 :: entries) false r.2 := by
  rw [flowMapping, bracketStep]
  dsimp only
  split
  · rfl
  split
  · rfl
  cases first with
  | true => rfl
  | false =>
    simp only [Bool.false_eq_true, if_false, Bool.not_false, Bool.true_and]
    split
    · rename_i hclose
      rw [hclose]
    · rename_i hclose
      rw [Bool.not_eq_true] at hclose
      rw [hclose]

/-- Reading a sequence in brackets adds to its items. -/
theorem exists_of_flowSequence {items : List Node} {first : Bool}
    (h : flowSequence d indent fuel path props items first c = .ok (n, c')) :
    ∃ more, n = .sequence props.tag (items.reverse ++ more) := by
  induction fuel generalizing items first c with
  | zero =>
    rw [flowSequence] at h
    cases h
  | succ fuel ih =>
    rw [flowSequence_succ] at h
    split at h
    · cases h
    · exact ⟨[], by rw [List.append_nil, (finishNode_eq_ok h).2.1]⟩
    · obtain ⟨⟨item, c₁⟩, -, hrest⟩ := bind_eq_ok_iff.mp h
      obtain ⟨more, rfl⟩ := ih hrest
      exact ⟨item :: more, by simp⟩

/-- Reading a mapping in braces adds to its entries. -/
theorem exists_of_flowMapping {entries : List (Node × Node)} {first : Bool}
    (h : flowMapping d indent fuel path props entries first c = .ok (n, c')) :
    ∃ more, n = .mapping props.tag (entries.reverse ++ more) := by
  induction fuel generalizing entries first c with
  | zero =>
    rw [flowMapping] at h
    cases h
  | succ fuel ih =>
    rw [flowMapping_succ] at h
    split at h
    · cases h
    · exact ⟨[], by rw [List.append_nil, (finishNode_eq_ok h).2.1]⟩
    · obtain ⟨⟨entry, c₁⟩, -, hrest⟩ := bind_eq_ok_iff.mp h
      obtain ⟨more, rfl⟩ := ih hrest
      exact ⟨entry :: more, by simp⟩

/-! ## Inside brackets -/

/-- An entry that another dialect takes, too: nothing before it has its key. -/
structure NewEntry (e : Dialect) (P : Node → Prop) (entries : List (Node × Node))
    (entry : Node × Node) : Prop where
  key : P entry.1
  value : P entry.2
  fresh : ∀ other ∈ entries, e.sameKey other.1 entry.1 = false

/-- An entry of a mapping in question comes after entries with other keys. -/
theorem Extends.newEntry (he : Extends d e P) {entries more : List (Node × Node)}
    {entry : Node × Node} {tag : Option String}
    (hn : P (.mapping tag ((entry :: entries).reverse ++ more))) : NewEntry e P entries entry := by
  obtain ⟨hkey, hvalue⟩ := (he.mapping hn).2 entry (by simp)
  refine ⟨hkey, hvalue, fun other hother => ?_⟩
  have hkeys := he.keys hn
  rw [List.reverse_cons, List.append_assoc, List.pairwise_append] at hkeys
  exact hkeys.2.2 other (by simpa using hother) entry (by simp)

/-- What is read inside brackets in two dialects. -/
structure FlowReads (d e : Dialect) (P : Node → Prop) (indent : Int) (fuel : Nat) : Prop where
  node (path : NodePath) : Mirrors P (flowNode d indent fuel path) (flowNode e indent fuel path)
  sequence (path : NodePath) (items : List Node) (first : Bool) :
    MirrorsInside P (fun props => flowSequence d indent fuel path props items first)
      (fun props => flowSequence e indent fuel path props items first)
  item (path : NodePath) : Mirrors P (flowItem d indent fuel path) (flowItem e indent fuel path)
  longEntry (path : NodePath) (entries : List (Node × Node)) :
    Mirrors (NewEntry e P entries) (flowLongEntry d indent fuel path entries)
      (flowLongEntry e indent fuel path entries)
  value (path : NodePath) :
    Mirrors P (flowValue d indent fuel path) (flowValue e indent fuel path)
  mapping (path : NodePath) (entries : List (Node × Node)) (first : Bool) :
    MirrorsInside P (fun props => flowMapping d indent fuel path props entries first)
      (fun props => flowMapping e indent fuel path props entries first)
  entry (path : NodePath) (entries : List (Node × Node)) :
    Mirrors (NewEntry e P entries) (flowEntry d indent fuel path entries)
      (flowEntry e indent fuel path entries)

/-- A collection that follows inside its brackets follows as a whole. -/
theorem MirrorsInside.opened {read read' : Props → Cursor → Reading}
    (h : MirrorsInside P read read') (hprops : props'.Within props)
    (htag : props'.tag = props.tag)
    (hread : read props (c.openAnchor props.anchor) = .ok (n, c')) (hn : P n)
    (hl : Resolves c.anchors l) :
    ∃ l', read' props' ((c.withAnchors l).openAnchor props'.anchor) =
        .ok (n, c'.withAnchors l') ∧
      (props' = props → ∃ new, c.Moves c' new ∧ l' = new ++ l) := by
  have hopen : Resolves (c.openAnchor props.anchor).anchors (announced props'.anchor ++ l) := by
    rw [Cursor.openAnchor_eq]
    exact hl.announced_within hprops
  obtain ⟨hcollection, c₁, new, hmoves, rfl, hread'⟩ := h htag hread hn hopen
  have hcursor : (c.openAnchor props.anchor).withAnchors (announced props'.anchor ++ l) =
      (c.withAnchors l).openAnchor props'.anchor := by
    rw [Cursor.openAnchor_eq, Cursor.openAnchor_eq]
    rfl
  rw [hcursor, Cursor.closeAnchor_collection hcollection _ hmoves.complete rfl] at hread'
  obtain ⟨l₁, hl₁⟩ := Cursor.closeAnchor_eq_withAnchors props.anchor n c₁
  refine ⟨new ++ named props'.anchor n ++ l, ?_, fun hsame => ?_⟩
  · rw [hread', hl₁]
    rfl
  · rw [hsame]
    exact ⟨_, hmoves.close hcollection, rfl⟩

/-- What stands on a line after the properties `props`, some of them perhaps on the lines
    before. Only with properties on this line may nothing stand there. -/
def contentNode (d : Dialect) (flow : Bool) (fuel : Nat) (path : NodePath) (indent : Int)
    (bare : Bool) (props : Props) (c : Cursor) : Reading :=
  if c.atChar '*' then
    if props.isEmpty then aliasNode d c else .error .malformed
  else if c.atChar '[' then
    flowSequence d indent fuel path props [] true
      (((c.skip 1).allowKeys true).openAnchor props.anchor)
  else if c.atChar '{' then
    flowMapping d indent fuel path props [] true
      (((c.skip 1).allowKeys true).openAnchor props.anchor)
  else
    match inlineScalar d flow indent props c with
    | some reading => reading
    | none => if bare then .error .malformed else emptyNode d props c

/-- What stands on a line is read in another dialect where properties have been left out,
    and with all properties it names the same nodes. -/
theorem Extends.contentNode (he : Extends d e P) (ih : FlowReads d e P indent fuel)
    {flow bare : Bool} (hprops : props'.Within props)
    (h : contentNode d flow fuel path indent bare props c = .ok (n, c')) (hn : P n)
    (hl : Resolves c.anchors l) :
    ∃ l', contentNode e flow fuel path indent bare props' (c.withAnchors l) =
        .ok (n, c'.withAnchors l') ∧
      (props' = props → ∃ new, c.Moves c' new ∧ l' = new ++ l) := by
  have htag (hnone : props.tag = none) : props'.tag = props.tag := by
    cases hprops.tag with
    | inl hnone' => rw [hnone, hnone']
    | inr hsame => exact hsame
  have hstart : c.Moves ((c.skip 1).allowKeys true) [] :=
    ((Cursor.Moves.refl c).skip 1).allowKeys true
  unfold Yaml.contentNode at h ⊢
  simp only [Cursor.withAnchors_atChar]
  by_cases hstar : c.atChar '*' = true
  · simp only [hstar, if_true] at h ⊢
    split at h
    · rename_i hempty
      obtain rfl := hprops.eq_of_isEmpty hempty
      obtain ⟨hmoves, hread⟩ := he.aliasNode hl h
      rw [if_pos hempty, hread]
      exact ⟨l, rfl, fun _ => ⟨[], hmoves, rfl⟩⟩
    · cases h
  by_cases hbracket : c.atChar '[' = true
  · simp only [hstar, hbracket, if_true, if_false, Bool.false_eq_true] at h ⊢
    obtain ⟨items, rfl⟩ := exists_of_flowSequence h
    obtain ⟨l', hread, hnew⟩ :=
      (ih.sequence path [] true).opened hprops (htag (he.sequence hn).1) h hn hl
    refine ⟨l', hread, fun hsame => ?_⟩
    obtain ⟨new, hmoves, hl'⟩ := hnew hsame
    exact ⟨new, hstart.prepend hmoves, hl'⟩
  by_cases hbrace : c.atChar '{' = true
  · simp only [hstar, hbracket, hbrace, if_true, if_false, Bool.false_eq_true] at h ⊢
    obtain ⟨entries, rfl⟩ := exists_of_flowMapping h
    obtain ⟨l', hread, hnew⟩ :=
      (ih.mapping path [] true).opened hprops (htag (he.mapping hn).1) h hn hl
    refine ⟨l', hread, fun hsame => ?_⟩
    obtain ⟨new, hmoves, hl'⟩ := hnew hsame
    exact ⟨new, hstart.prepend hmoves, hl'⟩
  · simp only [hstar, hbracket, hbrace, if_false, Bool.false_eq_true] at h ⊢
    have hscan : scanInline flow indent (c.withAnchors l) = scanInline flow indent c := rfl
    rw [inlineScalar_eq] at h ⊢
    rw [hscan]
    cases hsame : scanInline flow indent c with
    | none =>
      simp only [hsame, Option.map_none] at h ⊢
      split at h
      · cases h
      · rename_i hbare
        rw [if_neg hbare]
        exact he.finishScalar (.refl c) hprops hn h l
    | some r =>
      obtain ⟨plain, scan⟩ := r
      simp only [hsame, Option.map_some] at h ⊢
      obtain ⟨s, hs, hnode⟩ := bind_eq_ok_iff.mp h
      obtain rfl := orMalformed_eq_ok hs
      have hmoves := (Cursor.Moves.refl c).after (scanInline_suffix hsame)
      exact he.finishScalar hmoves hprops hn hnode l

/-! ## Entries in brackets -/

/-- The entry of a key, with the value after a colon, if there is one. -/
def entryValue (d : Dialect) (indent : Int) (fuel : Nat) (path : NodePath) (key : Node)
    (colon : Bool) (c : Cursor) : Except ReadError ((Node × Node) × Cursor) :=
  if colon then
    flowValue d indent fuel (key.step :: path) ((c.skip 1).allowKeys false) >>= fun r =>
      .ok ((key, r.1), r.2)
  else .ok ((key, .empty), c)

/-- An entry: its key, which must be new, and its value after a colon. -/
def keyedEntry (d : Dialect) (indent : Int) (fuel : Nat) (path : NodePath)
    (entries : List (Node × Node)) (colon : Cursor → Cursor → Bool) (key : Cursor → Reading)
    (c : Cursor) : Except ReadError ((Node × Node) × Cursor) :=
  key c >>= fun r => checkKey d path entries r.1 >>= fun _ =>
    entryValue d indent fuel path r.1 (colon c (r.2.toToken true)) (r.2.toToken true)

/-- Whether a key that was read without a mark is one. -/
def atColon (start c : Cursor) : Bool :=
  c.atChar ':' && start.keyFrom c

theorem flowNode_succ (d : Dialect) (indent : Int) (fuel : Nat) (path : NodePath) (c : Cursor) :
    flowNode d indent (fuel + 1) path c = orMalformed (scanProperties true c) >>= fun r =>
      if r.2.pos.column == 0 && isMarker r.2.rest then .error .malformed
      else contentNode d true fuel path indent r.1.isEmpty r.1 r.2 := by
  rw [flowNode]
  rfl

theorem flowEntry_succ (d : Dialect) (indent : Int) (fuel : Nat) (path : NodePath)
    (entries : List (Node × Node)) (c : Cursor) :
    flowEntry d indent (fuel + 1) path entries c =
      if c.atChar '?' then
        flowLongEntry d indent fuel path entries ((c.skip 1).allowKeys false)
      else keyedEntry d indent fuel path entries atColon (flowNode d indent fuel path) c := by
  rw [flowEntry]
  rfl

/-- The key after a `?`, which may be left out. -/
def longKey (d : Dialect) (indent : Int) (fuel : Nat) (path : NodePath) (c : Cursor) : Reading :=
  if c.atChar ':' then .ok (.empty, c) else flowValue d indent fuel path c

theorem flowLongEntry_succ (d : Dialect) (indent : Int) (fuel : Nat) (path : NodePath)
    (entries : List (Node × Node)) (c : Cursor) :
    flowLongEntry d indent (fuel + 1) path entries c =
      keyedEntry d indent fuel path entries (fun _ c => c.atChar ':')
        (longKey d indent fuel path) (c.toToken true) := by
  rw [flowLongEntry, keyedEntry, longKey]
  dsimp only
  split
  · rfl
  · rfl

theorem flowItem_succ (d : Dialect) (indent : Int) (fuel : Nat) (path : NodePath) (c : Cursor) :
    flowItem d indent (fuel + 1) path c =
      if c.atChar '?' then
        flowLongEntry d indent fuel path [] ((c.skip 1).allowKeys false) >>= fun r =>
          .ok (.mapping none [r.1], r.2)
      else
        flowNode d indent fuel path c >>= fun r =>
          if atColon c (r.2.toToken true) then
            entryValue d indent fuel path r.1 true (r.2.toToken true) >>= fun r =>
              .ok (.mapping none [r.1], r.2)
          else .ok (r.1, r.2.toToken true) := by
  rw [flowItem]
  simp only [entryValue, if_true, bind_assoc]
  rfl

/-! ## What follows inside brackets -/

/-- Keys that are the same for another dialect are the same for this one, of the nodes in
    question. -/
theorem checkKey_eq_ok {entries : List (Node × Node)} {key : Node}
    (h : ∀ other ∈ entries, e.sameKey other.1 key = false) (path : NodePath) :
    checkKey e path entries key = .ok () := by
  have hnone : entries.any (fun other => e.sameKey other.1 key) = false := by
    simpa using h
  rw [checkKey]
  simp [hnone]

/-- The key of an entry is the one that was read. -/
theorem entryValue_key {key : Node} {colon : Bool} {entry : Node × Node}
    (h : entryValue d indent fuel path key colon c = .ok (entry, c')) : entry.1 = key := by
  unfold entryValue at h
  split at h
  · obtain ⟨r, -, hend⟩ := bind_eq_ok_iff.mp h
    obtain ⟨rfl, -⟩ := Prod.mk.inj (Except.ok.inj hend)
    rfl
  · obtain ⟨rfl, -⟩ := Prod.mk.inj (Except.ok.inj h)
    rfl

namespace FlowReads

variable (ih : FlowReads d e P indent fuel)
include ih

/-- The value of an entry follows. -/
theorem entryValue {key : Node} {colon : Bool} {entry : Node × Node} (hl : Resolves c.anchors l)
    (h : entryValue d indent fuel path key colon c = .ok (entry, c')) (hvalue : P entry.2) :
    ∃ new, c.Moves c' new ∧ Yaml.entryValue e indent fuel path key colon (c.withAnchors l) =
      .ok (entry, c'.withAnchors (new ++ l)) := by
  unfold Yaml.entryValue at h ⊢
  cases colon with
  | false =>
    obtain ⟨rfl, rfl⟩ := Prod.mk.inj (Except.ok.inj h)
    exact ⟨[], .refl c, rfl⟩
  | true =>
    obtain ⟨⟨value, c₁⟩, hread, hend⟩ := bind_eq_ok_iff.mp h
    obtain ⟨rfl, rfl⟩ := Prod.mk.inj (Except.ok.inj hend)
    obtain ⟨new, hmoves, hread'⟩ := ih.value _ hread hvalue hl
    refine ⟨new, (((Cursor.Moves.refl c).skip 1).allowKeys false).prepend hmoves, ?_⟩
    exact bind_eq_ok_iff.mpr ⟨_, hread', rfl⟩

/-- An entry follows when its key does. -/
theorem keyedEntry {entries : List (Node × Node)} {colon : Cursor → Cursor → Bool}
    (hcolon : ∀ c c₁ l l', colon (c.withAnchors l) (c₁.withAnchors l') = colon c c₁)
    {key key' : Cursor → Reading} (hkey : Mirrors P key key') :
    Mirrors (NewEntry e P entries) (keyedEntry d indent fuel path entries colon key)
      (keyedEntry e indent fuel path entries colon key') := by
  intro c c' l entry h hentry hl
  obtain ⟨⟨k, c₁⟩, hread, hrest⟩ := bind_eq_ok_iff.mp h
  obtain ⟨-, -, hvalue⟩ := bind_eq_ok_iff.mp hrest
  obtain rfl := entryValue_key hvalue
  obtain ⟨new, hmoves, hread'⟩ := hkey hread hentry.key hl
  have htoken := hmoves.toToken true
  obtain ⟨more, hmoves', hvalue'⟩ := ih.entryValue (hl.moves htoken) hvalue hentry.value
  refine ⟨more ++ new, htoken.trans hmoves', ?_⟩
  unfold Yaml.keyedEntry
  rw [hread']
  refine bind_eq_ok_iff.mpr ⟨_, rfl, bind_eq_ok_iff.mpr ⟨(), checkKey_eq_ok hentry.fresh _, ?_⟩⟩
  rw [Cursor.withAnchors_toToken, hcolon, hvalue', List.append_assoc]

theorem value_succ (path : NodePath) :
    Mirrors P (flowValue d indent (fuel + 1) path) (flowValue e indent (fuel + 1) path) := by
  intro c c' l n h hn hl
  rw [flowValue] at h ⊢
  simp only [Cursor.withAnchors_toToken, Cursor.withAnchors_atChar]
  have htoken := (Cursor.Moves.refl c).toToken true
  split at h
  · rename_i hnone
    obtain ⟨rfl, rfl⟩ := Prod.mk.inj (Except.ok.inj h)
    simp only [hnone, if_true]
    exact ⟨[], htoken, rfl⟩
  · rename_i hsome
    obtain ⟨new, hmoves, hread⟩ := ih.node _ h hn hl
    simp only [hsome, if_false, Bool.false_eq_true]
    exact ⟨new, htoken.prepend hmoves, hread⟩

theorem longKey (path : NodePath) :
    Mirrors P (longKey d indent fuel path) (longKey e indent fuel path) := by
  intro c c' l n h hn hl
  unfold Yaml.longKey at h ⊢
  rw [Cursor.withAnchors_atChar]
  split at h
  · rename_i hcolon
    obtain ⟨rfl, rfl⟩ := Prod.mk.inj (Except.ok.inj h)
    rw [if_pos hcolon]
    exact ⟨[], .refl c, rfl⟩
  · rename_i hcolon
    rw [if_neg hcolon]
    exact ih.value _ h hn hl

theorem longEntry_succ (path : NodePath) (entries : List (Node × Node)) :
    Mirrors (NewEntry e P entries) (flowLongEntry d indent (fuel + 1) path entries)
      (flowLongEntry e indent (fuel + 1) path entries) := by
  intro c c' l entry h hentry hl
  rw [flowLongEntry_succ] at h ⊢
  obtain ⟨new, hmoves, hread⟩ := ih.keyedEntry (fun _ _ _ _ => rfl) (ih.longKey path) h hentry hl
  exact ⟨new, ((Cursor.Moves.refl c).toToken true).prepend hmoves, hread⟩

theorem entry_succ (path : NodePath) (entries : List (Node × Node)) :
    Mirrors (NewEntry e P entries) (flowEntry d indent (fuel + 1) path entries)
      (flowEntry e indent (fuel + 1) path entries) := by
  intro c c' l entry h hentry hl
  rw [flowEntry_succ] at h ⊢
  rw [Cursor.withAnchors_atChar]
  split at h
  · rename_i hmark
    rw [if_pos hmark]
    obtain ⟨new, hmoves, hread⟩ := ih.longEntry path entries h hentry hl
    exact ⟨new, (((Cursor.Moves.refl c).skip 1).allowKeys false).prepend hmoves, hread⟩
  · rename_i hmark
    rw [if_neg hmark]
    exact ih.keyedEntry (fun _ _ _ _ => rfl) (ih.node path) h hentry hl

variable (he : Extends d e P)
include he

theorem item_succ (path : NodePath) :
    Mirrors P (flowItem d indent (fuel + 1) path) (flowItem e indent (fuel + 1) path) := by
  intro c c' l n h hn hl
  rw [flowItem_succ] at h ⊢
  rw [Cursor.withAnchors_atChar]
  split at h
  · rename_i hmark
    rw [if_pos hmark]
    obtain ⟨⟨entry, c₁⟩, hread, hend⟩ := bind_eq_ok_iff.mp h
    obtain ⟨rfl, rfl⟩ := Prod.mk.inj (Except.ok.inj hend)
    obtain ⟨hkey, hvalue⟩ := (he.mapping hn).2 entry List.mem_cons_self
    obtain ⟨new, hmoves, hread'⟩ :=
      ih.longEntry path [] hread ⟨hkey, hvalue, List.forall_mem_nil _⟩ hl
    refine ⟨new, (((Cursor.Moves.refl c).skip 1).allowKeys false).prepend hmoves, ?_⟩
    exact bind_eq_ok_iff.mpr ⟨_, hread', rfl⟩
  · rename_i hmark
    rw [if_neg hmark]
    obtain ⟨⟨k, c₁⟩, hread, hrest⟩ := bind_eq_ok_iff.mp h
    dsimp only at hrest
    split at hrest
    · rename_i hcolon
      obtain ⟨⟨entry, c₂⟩, hentry, hend⟩ := bind_eq_ok_iff.mp hrest
      obtain ⟨rfl, rfl⟩ := Prod.mk.inj (Except.ok.inj hend)
      obtain ⟨hkey, hvalue⟩ := (he.mapping hn).2 entry List.mem_cons_self
      rw [entryValue_key hentry] at hkey
      obtain ⟨new, hmoves, hread'⟩ := ih.node path hread hkey hl
      have htoken := hmoves.toToken true
      obtain ⟨more, hmoves', hentry'⟩ := ih.entryValue (hl.moves htoken) hentry hvalue
      refine ⟨more ++ new, htoken.trans hmoves', bind_eq_ok_iff.mpr ⟨_, hread', ?_⟩⟩
      have hcolon' : atColon (c.withAnchors l) ((c₁.withAnchors (new ++ l)).toToken true) = true :=
        hcolon
      rw [if_pos hcolon', List.append_assoc]
      exact bind_eq_ok_iff.mpr ⟨_, hentry', rfl⟩
    · rename_i hcolon
      obtain ⟨rfl, rfl⟩ := Prod.mk.inj (Except.ok.inj hrest)
      obtain ⟨new, hmoves, hread'⟩ := ih.node path hread hn hl
      refine ⟨new, hmoves.toToken true, bind_eq_ok_iff.mpr ⟨_, hread', ?_⟩⟩
      have hcolon' :
          ¬ atColon (c.withAnchors l) ((c₁.withAnchors (new ++ l)).toToken true) = true :=
        hcolon
      rw [if_neg hcolon']
      rfl

theorem node_succ (path : NodePath) :
    Mirrors P (flowNode d indent (fuel + 1) path) (flowNode e indent (fuel + 1) path) := by
  intro c c' l n h hn hl
  rw [flowNode_succ] at h ⊢
  obtain ⟨⟨props, c₁⟩, hprops, hcontent⟩ := bind_eq_ok_iff.mp h
  have hscan := orMalformed_eq_ok hprops
  rw [scanProperties_withAnchors, hscan]
  have hmoves := scanProperties_moves hscan
  dsimp only at hcontent
  split at hcontent
  · cases hcontent
  · rename_i hmarker
    obtain ⟨l', hread, hnew⟩ := he.contentNode ih (.refl props) hcontent hn (hl.moves hmoves)
    obtain ⟨new, hmoves', rfl⟩ := hnew rfl
    refine ⟨new, hmoves.prepend hmoves', bind_eq_ok_iff.mpr ⟨_, rfl, ?_⟩⟩
    simp only [Cursor.withAnchors_pos, Cursor.withAnchors_rest, hmarker, if_false,
      Bool.false_eq_true]
    exact hread

theorem sequence_succ (path : NodePath) (items : List Node) (first : Bool) :
    MirrorsInside P (fun props => flowSequence d indent (fuel + 1) path props items first)
      (fun props => flowSequence e indent (fuel + 1) path props items first) := by
  intro props props' c c' l n htag h hn hl
  simp only [flowSequence_succ, bracketStep_withAnchors] at h ⊢
  split at h
  · cases h
  · rename_i c₁ hstep
    obtain ⟨rfl, hend, hfinish⟩ := he.finishNode h
    rw [hstep]
    simp only [Option.map_some, htag]
    have hmoves := ((bracketStep_moves hstep).skip 1).allowKeys false
    exact ⟨rfl, _, [], hmoves, hend, hfinish props' _⟩
  · rename_i c₁ hstep
    obtain ⟨⟨item, c₂⟩, hread, hrest⟩ := bind_eq_ok_iff.mp h
    obtain ⟨more, hshape⟩ := exists_of_flowSequence hrest
    have hitem : P item := by
      rw [hshape] at hn
      exact (he.sequence hn).2 item (by simp)
    rw [hstep]
    simp only [Option.map_some]
    have hmoves := bracketStep_moves hstep
    obtain ⟨new, hmoves', hread'⟩ := ih.item _ hread hitem (hl.moves hmoves)
    obtain ⟨hcollection, c₃, more, hmoves'', hend, hrest'⟩ :=
      ih.sequence path (item :: items) false htag hrest hn ((hl.moves hmoves).moves hmoves')
    refine ⟨hcollection, c₃, more ++ new, (hmoves.prepend hmoves').trans hmoves'', hend, ?_⟩
    rw [List.append_assoc]
    exact bind_eq_ok_iff.mpr ⟨_, hread', hrest'⟩

theorem mapping_succ (path : NodePath) (entries : List (Node × Node)) (first : Bool) :
    MirrorsInside P (fun props => flowMapping d indent (fuel + 1) path props entries first)
      (fun props => flowMapping e indent (fuel + 1) path props entries first) := by
  intro props props' c c' l n htag h hn hl
  simp only [flowMapping_succ, bracketStep_withAnchors] at h ⊢
  split at h
  · cases h
  · rename_i c₁ hstep
    obtain ⟨rfl, hend, hfinish⟩ := he.finishNode h
    rw [hstep]
    simp only [Option.map_some, htag]
    have hmoves := ((bracketStep_moves hstep).skip 1).allowKeys false
    exact ⟨rfl, _, [], hmoves, hend, hfinish props' _⟩
  · rename_i c₁ hstep
    obtain ⟨⟨entry, c₂⟩, hread, hrest⟩ := bind_eq_ok_iff.mp h
    obtain ⟨more, hshape⟩ := exists_of_flowMapping hrest
    rw [hstep]
    simp only [Option.map_some]
    have hmoves := bracketStep_moves hstep
    obtain ⟨new, hmoves', hread'⟩ :=
      ih.entry _ entries hread (he.newEntry (hshape ▸ hn)) (hl.moves hmoves)
    obtain ⟨hcollection, c₃, more, hmoves'', hend, hrest'⟩ :=
      ih.mapping path (entry :: entries) false htag hrest hn ((hl.moves hmoves).moves hmoves')
    refine ⟨hcollection, c₃, more ++ new, (hmoves.prepend hmoves').trans hmoves'', hend, ?_⟩
    rw [List.append_assoc]
    exact bind_eq_ok_iff.mpr ⟨_, hread', hrest'⟩

end FlowReads

/-- What is read inside brackets is read in the other dialect, too: every unit of fuel reads
    one more level. -/
theorem Extends.flowReads (he : Extends d e P) (indent : Int) (fuel : Nat) :
    FlowReads d e P indent fuel := by
  induction fuel with
  | zero =>
    constructor
    case node => exact fun _ _ _ _ _ h => nomatch h
    case sequence => exact fun _ _ _ _ _ _ _ _ _ _ h => nomatch h
    case item => exact fun _ _ _ _ _ h => nomatch h
    case longEntry => exact fun _ _ _ _ _ _ h => nomatch h
    case value => exact fun _ _ _ _ _ h => nomatch h
    case mapping => exact fun _ _ _ _ _ _ _ _ _ _ h => nomatch h
    case entry => exact fun _ _ _ _ _ _ h => nomatch h
  | succ fuel ih =>
    exact {
      node := ih.node_succ he
      sequence := ih.sequence_succ he
      item := ih.item_succ he
      longEntry := ih.longEntry_succ
      value := ih.value_succ
      mapping := ih.mapping_succ he
      entry := ih.entry_succ }

end RunPlan.Yaml
