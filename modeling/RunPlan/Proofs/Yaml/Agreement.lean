import RunPlan.Proofs.Yaml.Dialect

/-!
# Documents in another dialect

A document whose last line has an end is read in another dialect as the node that a stricter
dialect reads (`Extends.readDocument`). Outside brackets a node may turn out to be no key only
after it was read as one; the other dialect finds that out as well, since it reads the same.

## Key results

- `Extends.blockReads`: nodes outside brackets
- `Extends.readDocument`: documents
-/

namespace RunPlan.Yaml

variable {d e : Dialect} {P : Node → Prop} {c c' : Cursor} {n : Node} {props : Props}
  {indent : Int} {path : NodePath} {fuel : Nat} {α : Type}

/-- What one reader reads at a place another one reads there, where the last line has an
    end. -/
def Agrees (P : α → Prop) (read read' : Cursor → Except ReadError (α × Cursor)) : Prop :=
  ∀ ⦃c c' : Cursor⦄ ⦃a : α⦄, read c = .ok (a, c') → P a → EndsLine c.rest →
    read' c = .ok (a, c') ∧ c'.rest <:+ c.rest

/-! ## Nodes on a line -/

@[simp] theorem Cursor.openAnchor_rest (name : Option String) (c : Cursor) :
    (c.openAnchor name).rest = c.rest := by
  rw [openAnchor_eq, withAnchors_rest]

@[simp] theorem Cursor.closeAnchor_rest (name : Option String) (n : Node) (c : Cursor) :
    (c.closeAnchor name n).rest = c.rest := by
  obtain ⟨l, hl⟩ := closeAnchor_eq_withAnchors name n c
  rw [hl, withAnchors_rest]

/-- The end of a node, at the same place. -/
theorem Extends.finishNode_agrees (he : Extends d e P) {m : Node}
    (h : Yaml.finishNode d props n c = .ok (m, c')) :
    Yaml.finishNode e props n c = .ok (m, c') ∧ c'.rest <:+ c.rest := by
  obtain ⟨rfl, rfl, hfinish⟩ := he.finishNode h
  exact ⟨hfinish props c, by simp⟩

/-- What stands on a line outside brackets. -/
theorem contentNode_eq (d : Dialect) (fuel : Nat) (path : NodePath) (indent : Int) (bare : Bool)
    (props : Props) (c : Cursor) :
    contentNode d false fuel path indent bare props c =
      match inlineNode d fuel path indent props c with
      | some reading => reading
      | none => if bare then .error .malformed else emptyNode d props c := by
  unfold inlineNode contentNode
  by_cases hstar : c.atChar '*' = true
  · simp only [hstar, if_true]
  by_cases hbracket : c.atChar '[' = true
  · simp only [hstar, hbracket, if_true, if_false, Bool.false_eq_true]
  by_cases hbrace : c.atChar '{' = true
  · simp only [hstar, hbracket, hbrace, if_true, if_false, Bool.false_eq_true]
  · cases inlineScalar d false indent props c <;>
      simp only [hstar, hbracket, hbrace, if_false, Bool.false_eq_true]

/-- What stands on a line, at the same place. -/
theorem Extends.contentNode_agrees (he : Extends d e P) (flow bare : Bool) (props : Props) :
    Agrees P (Yaml.contentNode d flow fuel path indent bare props)
      (Yaml.contentNode e flow fuel path indent bare props) := by
  intro c c' n h hn _
  obtain ⟨l', hread, hnew⟩ :=
    he.contentNode (he.flowReads indent fuel) (.refl props) h hn (Resolves.refl _)
  obtain ⟨new, hmoves, rfl⟩ := hnew rfl
  rw [← hmoves.anchors] at hread
  exact ⟨hread, hmoves.suffix⟩

/-- A block scalar. -/
theorem Extends.blockScalar_agrees (he : Extends d e P) (indent : Int) (props : Props) :
    Agrees P (blockScalar d indent props) (blockScalar e indent props) := by
  intro c c' n h _ hline
  unfold blockScalar at h ⊢
  have htail : EndsLine (c.rest.drop 1) := hline.of_suffix (List.drop_suffix 1 c.rest)
  rw [htail.scanBlock_eq] at h ⊢
  obtain ⟨s, hs, hnode⟩ := bind_eq_ok_iff.mp h
  have hscan := scanBlock_suffix (orMalformed_eq_ok hs)
  obtain ⟨hread, hsuffix⟩ := he.finishNode_agrees hnode
  exact ⟨bind_eq_ok_iff.mpr ⟨s, hs, hread⟩,
    hsuffix.trans (hscan.trans (List.drop_suffix 1 c.rest))⟩

/-! ## Keys -/

/-- The end of a key, before its colon. -/
def keyEnd (start : Cursor) (r : Node × Cursor) : Reading :=
  let c := r.2.toToken false
  if c.atIndicator ':' && start.keyFrom c then .ok (r.1, c) else .error .malformed

theorem blockKey_eq (d : Dialect) (fuel : Nat) (path : NodePath) (indent : Int) (c : Cursor) :
    blockKey d fuel path indent c = orMalformed (scanProperties false c) >>= fun r =>
      contentNode d false fuel path indent r.1.isEmpty r.1 r.2 >>= keyEnd c := by
  unfold blockKey
  refine congrArg (orMalformed (scanProperties false c) >>= ·) (funext fun r => ?_)
  rw [contentNode_eq]
  dsimp only
  cases inlineNode d fuel path indent r.1 r.2 with
  | some reading => rfl
  | none => cases r.1.isEmpty <;> rfl

/-- A key. -/
theorem Extends.blockKey_agrees (he : Extends d e P) (path : NodePath) (indent : Int) :
    Agrees P (blockKey d fuel path indent) (blockKey e fuel path indent) := by
  intro c c' n h hn hline
  rw [blockKey_eq] at h ⊢
  obtain ⟨⟨own, c₁⟩, hprops, hrest⟩ := bind_eq_ok_iff.mp h
  obtain ⟨⟨k, c₂⟩, hread, hend⟩ := bind_eq_ok_iff.mp hrest
  have hsuffix := scanProperties_suffix (orMalformed_eq_ok hprops)
  obtain ⟨rfl, rfl⟩ : k = n ∧ c₂.toToken false = c' := by
    unfold keyEnd at hend
    dsimp only at hend
    split at hend
    · exact Prod.mk.inj (Except.ok.inj hend)
    · cases hend
  obtain ⟨hread', hsuffix'⟩ := he.contentNode_agrees _ _ _ hread hn (hline.of_suffix hsuffix)
  refine ⟨?_, (Cursor.toToken_suffix ..).trans (hsuffix'.trans hsuffix)⟩
  exact bind_eq_ok_iff.mpr ⟨_, hprops, bind_eq_ok_iff.mpr ⟨_, hread', hend⟩⟩

/-- Whether a node is a key shows after it, and does not depend on properties from the lines
    before. So what was read as a node after it was no key is no key in another dialect. -/
theorem Extends.blockKey_malformed (hd : Extends d d P) (he : Extends d e P) {own : Props}
    {c₁ : Cursor} (hprops : scanProperties false c = some (own, c₁))
    (hown : own.Within props)
    (h : Yaml.contentNode d false fuel path indent own.isEmpty props c₁ = .ok (n, c')) (hn : P n)
    (hkey : blockKey d fuel path indent c = .error .malformed) :
    blockKey e fuel path indent c = .error .malformed := by
  have hanchors := Resolves.refl c₁.anchors
  obtain ⟨l, hread, -⟩ := hd.contentNode (hd.flowReads indent fuel) hown h hn hanchors
  obtain ⟨l', hread', -⟩ := he.contentNode (he.flowReads indent fuel) hown h hn hanchors
  rw [Cursor.withAnchors_self] at hread hread'
  have hkeyEnd (d : Dialect) {l : Anchors}
      (hread : Yaml.contentNode d false fuel path indent own.isEmpty own c₁ =
        .ok (n, c'.withAnchors l)) :
      blockKey d fuel path indent c = keyEnd c (n, c'.withAnchors l) := by
    rw [blockKey_eq, hprops]
    show Yaml.contentNode d false fuel path indent own.isEmpty own c₁ >>= keyEnd c = _
    rw [hread]
    rfl
  rw [hkeyEnd d hread] at hkey
  rw [hkeyEnd e hread']
  by_cases hcolon : ((c'.toToken false).atIndicator ':' && c.keyFrom (c'.toToken false)) = true
  · have hok : keyEnd c (n, c'.withAnchors l) = .ok (n, (c'.withAnchors l).toToken false) :=
      if_pos hcolon
    rw [hok] at hkey
    cases hkey
  · exact if_neg hcolon

/-! ## Collections in columns -/

/-- The entry of a key and of the value that starts here. -/
def blockValue (d : Dialect) (fuel : Nat) (path : NodePath) (column : Nat) (key : Node)
    (c : Cursor) : Except ReadError ((Node × Node) × Cursor) :=
  blockNode d fuel (key.step :: path) column true c >>= fun v => .ok ((key, v.1), v.2)

/-- The entry of a key after a `?`, which may have no value. -/
def longValue (d : Dialect) (fuel : Nat) (path : NodePath) (column : Nat) (key : Node)
    (c : Cursor) : Except ReadError ((Node × Node) × Cursor) :=
  let c := c.toToken false
  if c.atIndicator ':' && c.pos.column == column && c.keys then
    blockValue d fuel path column key ((c.skip 1).allowKeys true)
  else .ok ((key, .empty), c)

/-- The entry of a key with a colon behind it. -/
def shortValue (d : Dialect) (fuel : Nat) (path : NodePath) (column : Nat) (key : Node)
    (c : Cursor) : Except ReadError ((Node × Node) × Cursor) :=
  blockValue d fuel path column key ((c.skip 1).allowKeys false)

/-- An entry: its key, which must be new, and its value. -/
def withKey (d : Dialect) (path : NodePath) (entries : List (Node × Node))
    (key : Cursor → Reading) (value : Node → Cursor → Except ReadError ((Node × Node) × Cursor))
    (c : Cursor) : Except ReadError ((Node × Node) × Cursor) :=
  key c >>= fun k => checkKey d path entries k.1 >>= fun _ => value k.1 k.2

/-- An entry of a mapping in a column. -/
def blockEntry (d : Dialect) (fuel : Nat) (path : NodePath) (column : Nat)
    (entries : List (Node × Node)) (c : Cursor) : Except ReadError ((Node × Node) × Cursor) :=
  if c.atIndicator '?' then
    withKey d path entries (blockNode d fuel path column true) (longValue d fuel path column)
      ((c.skip 1).allowKeys true)
  else withKey d path entries (blockKey d fuel path column) (shortValue d fuel path column) c

theorem blockMapping_succ (d : Dialect) (fuel : Nat) (path : NodePath) (column : Nat)
    (props : Props) (entries : List (Node × Node)) (c : Cursor) :
    blockMapping d (fuel + 1) path column props entries c =
      let c := c.toToken false
      if c.atEnd || c.pos.column < column then
        finishNode d props (.mapping props.tag entries.reverse) c
      else if column < c.pos.column || !c.keys then .error .malformed
      else blockEntry d fuel path column entries c >>= fun r =>
        blockMapping d fuel path column props (r.1 :: entries) r.2 := by
  rw [blockMapping]
  unfold blockEntry withKey
  dsimp only
  split
  · rfl
  split
  · rfl
  split
  · simp only [bind_assoc]
    refine bind_congr fun k => bind_congr fun _ => ?_
    unfold longValue blockValue
    dsimp only
    split
    · simp only [bind_assoc]
      rfl
    · rfl
  · simp only [shortValue, blockValue, bind_assoc]
    rfl

theorem blockSequence_succ (d : Dialect) (fuel : Nat) (path : NodePath) (column : Nat)
    (sameColumn : Bool) (props : Props) (items : List Node) (c : Cursor) :
    blockSequence d (fuel + 1) path column sameColumn props items c =
      let c := c.toToken false
      if c.atEnd || c.pos.column < column then
        finishNode d props (.sequence props.tag items.reverse) c
      else if column < c.pos.column then .error .malformed
      else if c.atIndicator '-' && c.keys then
        blockNode d fuel (.index items.length :: path) column false
          ((c.skip 1).allowKeys true) >>= fun r =>
            blockSequence d fuel path column sameColumn props (r.1 :: items) r.2
      else if sameColumn then finishNode d props (.sequence props.tag items.reverse) c
      else .error .malformed := by
  rw [blockSequence]

/-- Reading a sequence in a column adds to its items. -/
theorem exists_of_blockSequence {column : Nat} {sameColumn : Bool} {items : List Node}
    (h : blockSequence d fuel path column sameColumn props items c = .ok (n, c')) :
    ∃ more, n = .sequence props.tag (items.reverse ++ more) := by
  induction fuel generalizing items c with
  | zero =>
    rw [blockSequence] at h
    cases h
  | succ fuel ih =>
    have hfinish {c : Cursor}
        (h : finishNode d props (.sequence props.tag items.reverse) c = .ok (n, c')) :
        ∃ more, n = .sequence props.tag (items.reverse ++ more) :=
      ⟨[], by rw [List.append_nil, (finishNode_eq_ok h).2.1]⟩
    rw [blockSequence_succ] at h
    dsimp only at h
    split at h
    · exact hfinish h
    split at h
    · cases h
    split at h
    · obtain ⟨⟨item, c₁⟩, -, hrest⟩ := bind_eq_ok_iff.mp h
      obtain ⟨more, rfl⟩ := ih hrest
      exact ⟨item :: more, by simp⟩
    split at h
    · exact hfinish h
    · cases h

/-- Reading a mapping in a column adds to its entries. -/
theorem exists_of_blockMapping {column : Nat} {entries : List (Node × Node)}
    (h : blockMapping d fuel path column props entries c = .ok (n, c')) :
    ∃ more, n = .mapping props.tag (entries.reverse ++ more) := by
  induction fuel generalizing entries c with
  | zero =>
    rw [blockMapping] at h
    cases h
  | succ fuel ih =>
    rw [blockMapping_succ] at h
    dsimp only at h
    split at h
    · exact ⟨[], by rw [List.append_nil, (finishNode_eq_ok h).2.1]⟩
    split at h
    · cases h
    · obtain ⟨⟨entry, c₁⟩, -, hrest⟩ := bind_eq_ok_iff.mp h
      obtain ⟨more, rfl⟩ := ih hrest
      exact ⟨entry :: more, by simp⟩

/-! ## Nodes outside brackets -/

/-- What a line holds that does not start with a mark: properties of what is on later lines, a
    block scalar, the first key of a mapping, or a node on its own. -/
def blockLine (d : Dialect) (fuel : Nat) (path : NodePath) (indent : Int) (sameColumn : Bool)
    (props : Props) (c : Cursor) : Reading :=
  orMalformed (scanProperties false c) >>= fun r =>
    if !r.1.isEmpty && r.2.pos.line != c.pos.line then
      orMalformed (props.merge? r.1) >>= fun props =>
        blockContent d fuel path indent sameColumn props r.2
    else if r.2.atChar '|' || r.2.atChar '>' then
      orMalformed (props.merge? r.1) >>= fun props => blockScalar d indent props r.2
    else
      match blockKey d fuel path indent c with
      | .ok k =>
        shortValue d fuel path c.pos.column k.1 (k.2.openAnchor props.anchor) >>= fun r =>
          blockMapping d fuel path c.pos.column props [r.1] r.2
      | .error (.duplicateKey p k) => .error (.duplicateKey p k)
      | .error .malformed =>
        orMalformed (props.merge? r.1) >>= fun props =>
          contentNode d false fuel path indent r.1.isEmpty props r.2

theorem blockContent_succ (d : Dialect) (fuel : Nat) (path : NodePath) (indent : Int)
    (sameColumn : Bool) (props : Props) (c : Cursor) :
    blockContent d (fuel + 1) path indent sameColumn props c =
      if c.atEnd || (c.pos.column : Int) < indent then emptyNode d props c
      else if c.atIndicator '-' then
        if !c.keys then .error .malformed
        else if indent < c.pos.column || sameColumn then
          blockSequence d fuel path c.pos.column (indent == c.pos.column) props []
            (c.openAnchor props.anchor)
        else emptyNode d props c
      else if c.atChar '|' || c.atChar '>' then blockScalar d indent props c
      else if (c.pos.column : Int) == indent then emptyNode d props c
      else if c.atIndicator '?' then
        if !c.keys then .error .malformed
        else blockMapping d fuel path c.pos.column props [] (c.openAnchor props.anchor)
      else blockLine d fuel path indent sameColumn props c := by
  rw [blockContent]
  unfold blockLine
  simp only [contentNode_eq]
  split
  · rfl
  split
  · rfl
  split
  · rfl
  split
  · rfl
  split
  · rfl
  refine bind_congr fun r => ?_
  split
  · rfl
  split
  · rfl
  · cases blockKey d fuel path indent c with
    | ok k =>
      simp only [shortValue, blockValue, bind_assoc]
      rfl
    | error error => cases error <;> rfl

/-! ## What agrees outside brackets -/

theorem blockValue_key {column : Nat} {key : Node} {entry : Node × Node}
    (h : blockValue d fuel path column key c = .ok (entry, c')) : entry.1 = key := by
  obtain ⟨v, -, hend⟩ := bind_eq_ok_iff.mp h
  obtain ⟨rfl, -⟩ := Prod.mk.inj (Except.ok.inj hend)
  rfl

/-- The key of an entry is the one that was read. -/
theorem longValue_key {column : Nat} {key : Node} {c c' : Cursor} {entry : Node × Node}
    (h : longValue d fuel path column key c = .ok (entry, c')) : entry.1 = key := by
  unfold longValue at h
  dsimp only at h
  split at h
  · exact blockValue_key h
  · obtain ⟨rfl, -⟩ := Prod.mk.inj (Except.ok.inj h)
    rfl

theorem shortValue_key {column : Nat} {key : Node} {c c' : Cursor} {entry : Node × Node}
    (h : shortValue d fuel path column key c = .ok (entry, c')) : entry.1 = key :=
  blockValue_key h

/-- An entry is read where its key is. -/
theorem Agrees.withKey {key key' : Cursor → Reading} (hkey : Agrees P key key')
    {entries : List (Node × Node)} (path : NodePath)
    {value value' : Node → Cursor → Except ReadError ((Node × Node) × Cursor)}
    (hvalue : ∀ k, Agrees (fun entry => P entry.2) (value k) (value' k))
    (hsame : ∀ {k c c' entry}, value k c = .ok (entry, c') → entry.1 = k) :
    Agrees (NewEntry e P entries) (withKey d path entries key value)
      (withKey e path entries key' value') := by
  intro c c' entry h hentry hline
  obtain ⟨⟨k, c₁⟩, hread, hrest⟩ := bind_eq_ok_iff.mp h
  obtain ⟨-, -, hend⟩ := bind_eq_ok_iff.mp hrest
  obtain rfl := hsame hend
  obtain ⟨hread', hsuffix⟩ := hkey hread hentry.key hline
  obtain ⟨hend', hsuffix'⟩ := hvalue _ hend hentry.value (hline.of_suffix hsuffix)
  refine ⟨bind_eq_ok_iff.mpr ⟨_, hread', bind_eq_ok_iff.mpr ⟨(), ?_, hend'⟩⟩,
    hsuffix'.trans hsuffix⟩
  exact checkKey_eq_ok hentry.fresh path

/-- What is read outside brackets in two dialects. -/
structure BlockReads (d e : Dialect) (P : Node → Prop) (fuel : Nat) : Prop where
  node (path : NodePath) (indent : Int) (sameColumn : Bool) :
    Agrees P (blockNode d fuel path indent sameColumn) (blockNode e fuel path indent sameColumn)
  content (path : NodePath) (indent : Int) (sameColumn : Bool) (props : Props) :
    Agrees P (blockContent d fuel path indent sameColumn props)
      (blockContent e fuel path indent sameColumn props)
  sequence (path : NodePath) (column : Nat) (sameColumn : Bool) (props : Props)
    (items : List Node) :
    Agrees P (blockSequence d fuel path column sameColumn props items)
      (blockSequence e fuel path column sameColumn props items)
  mapping (path : NodePath) (column : Nat) (props : Props) (entries : List (Node × Node)) :
    Agrees P (blockMapping d fuel path column props entries)
      (blockMapping e fuel path column props entries)

namespace BlockReads

variable (ih : BlockReads d e P fuel)
include ih

theorem node_succ (path : NodePath) (indent : Int) (sameColumn : Bool) :
    Agrees P (blockNode d (fuel + 1) path indent sameColumn)
      (blockNode e (fuel + 1) path indent sameColumn) := by
  intro c c' n h hn hline
  rw [blockNode] at h ⊢
  have htoken := Cursor.toToken_suffix false c
  obtain ⟨hread, hsuffix⟩ := ih.content _ _ _ _ h hn (hline.of_suffix htoken)
  exact ⟨hread, hsuffix.trans htoken⟩

theorem value (path : NodePath) (column : Nat) (key : Node) :
    Agrees (fun entry => P entry.2) (blockValue d fuel path column key)
      (blockValue e fuel path column key) := by
  intro c c' entry h hvalue hline
  obtain ⟨⟨v, c₁⟩, hread, hend⟩ := bind_eq_ok_iff.mp h
  obtain ⟨rfl, rfl⟩ := Prod.mk.inj (Except.ok.inj hend)
  obtain ⟨hread', hsuffix⟩ := ih.node _ _ _ hread hvalue hline
  exact ⟨bind_eq_ok_iff.mpr ⟨_, hread', rfl⟩, hsuffix⟩

theorem shortValue (path : NodePath) (column : Nat) (key : Node) :
    Agrees (fun entry => P entry.2) (shortValue d fuel path column key)
      (shortValue e fuel path column key) := by
  intro c c' entry h hvalue hline
  have hskip : ((c.skip 1).allowKeys false).rest <:+ c.rest := Cursor.skip_suffix 1 c
  obtain ⟨hread, hsuffix⟩ := ih.value _ _ _ h hvalue (hline.of_suffix hskip)
  exact ⟨hread, hsuffix.trans hskip⟩

theorem longValue (path : NodePath) (column : Nat) (key : Node) :
    Agrees (fun entry => P entry.2) (longValue d fuel path column key)
      (longValue e fuel path column key) := by
  intro c c' entry h hvalue hline
  have htoken := Cursor.toToken_suffix false c
  unfold Yaml.longValue at h ⊢
  dsimp only at h ⊢
  split at h
  · rename_i hcolon
    have hskip := (Cursor.skip_suffix 1 (c.toToken false)).trans htoken
    obtain ⟨hread, hsuffix⟩ := ih.value _ _ _ h hvalue (hline.of_suffix hskip)
    rw [if_pos hcolon]
    exact ⟨hread, hsuffix.trans hskip⟩
  · rename_i hcolon
    rw [if_neg hcolon]
    obtain ⟨rfl, rfl⟩ := Prod.mk.inj (Except.ok.inj h)
    exact ⟨rfl, htoken⟩

variable (he : Extends d e P)
include he

theorem entry (path : NodePath) (column : Nat) (entries : List (Node × Node)) :
    Agrees (NewEntry e P entries) (blockEntry d fuel path column entries)
      (blockEntry e fuel path column entries) := by
  intro c c' entry h hentry hline
  unfold blockEntry at h ⊢
  split at h
  · rename_i hmark
    rw [if_pos hmark]
    have hskip : ((c.skip 1).allowKeys true).rest <:+ c.rest := Cursor.skip_suffix 1 c
    obtain ⟨hread, hsuffix⟩ := (ih.node path column true).withKey path (ih.longValue path column)
      longValue_key h hentry (hline.of_suffix hskip)
    exact ⟨hread, hsuffix.trans hskip⟩
  · rename_i hmark
    rw [if_neg hmark]
    exact (he.blockKey_agrees path column).withKey path (ih.shortValue path column)
      shortValue_key h hentry hline

theorem mapping_succ (path : NodePath) (column : Nat) (props : Props)
    (entries : List (Node × Node)) :
    Agrees P (blockMapping d (fuel + 1) path column props entries)
      (blockMapping e (fuel + 1) path column props entries) := by
  intro c c' n h hn hline
  rw [blockMapping_succ] at h ⊢
  dsimp only at h ⊢
  have htoken := Cursor.toToken_suffix false c
  split at h
  · rename_i hend
    obtain ⟨hread, hsuffix⟩ := he.finishNode_agrees h
    rw [if_pos hend]
    exact ⟨hread, hsuffix.trans htoken⟩
  split at h
  · cases h
  · rename_i hend hcolumn
    rw [if_neg hend, if_neg hcolumn]
    obtain ⟨⟨entry, c₁⟩, hread, hrest⟩ := bind_eq_ok_iff.mp h
    obtain ⟨more, hshape⟩ := exists_of_blockMapping hrest
    obtain ⟨hread', hsuffix⟩ :=
      ih.entry he _ _ _ hread (he.newEntry (hshape ▸ hn)) (hline.of_suffix htoken)
    have hsuffix' := hsuffix.trans htoken
    obtain ⟨hrest', hsuffix''⟩ := ih.mapping _ _ _ _ hrest hn (hline.of_suffix hsuffix')
    exact ⟨bind_eq_ok_iff.mpr ⟨_, hread', hrest'⟩, hsuffix''.trans hsuffix'⟩

theorem sequence_succ (path : NodePath) (column : Nat) (sameColumn : Bool) (props : Props)
    (items : List Node) :
    Agrees P (blockSequence d (fuel + 1) path column sameColumn props items)
      (blockSequence e (fuel + 1) path column sameColumn props items) := by
  intro c c' n h hn hline
  rw [blockSequence_succ] at h ⊢
  dsimp only at h ⊢
  have htoken := Cursor.toToken_suffix false c
  split at h
  · rename_i hend
    obtain ⟨hread, hsuffix⟩ := he.finishNode_agrees h
    rw [if_pos hend]
    exact ⟨hread, hsuffix.trans htoken⟩
  split at h
  · cases h
  rename_i hend hcolumn
  rw [if_neg hend, if_neg hcolumn]
  split at h
  · rename_i hmark
    obtain ⟨⟨item, c₁⟩, hread, hrest⟩ := bind_eq_ok_iff.mp h
    obtain ⟨more, hshape⟩ := exists_of_blockSequence hrest
    have hitem : P item := (he.sequence (hshape ▸ hn)).2 item (by simp)
    have hskip := (Cursor.skip_suffix 1 (c.toToken false)).trans htoken
    obtain ⟨hread', hsuffix⟩ := ih.node _ _ _ hread hitem (hline.of_suffix hskip)
    have hsuffix' := hsuffix.trans hskip
    obtain ⟨hrest', hsuffix''⟩ := ih.sequence _ _ _ _ _ hrest hn (hline.of_suffix hsuffix')
    rw [if_pos hmark]
    exact ⟨bind_eq_ok_iff.mpr ⟨_, hread', hrest'⟩, hsuffix''.trans hsuffix'⟩
  split at h
  · rename_i hmark hsame
    obtain ⟨hread, hsuffix⟩ := he.finishNode_agrees h
    rw [if_neg hmark, if_pos hsame]
    exact ⟨hread, hsuffix.trans htoken⟩
  · cases h

theorem line (hd : Extends d d P) (path : NodePath) (indent : Int) (sameColumn : Bool)
    (props : Props) :
    Agrees P (blockLine d fuel path indent sameColumn props)
      (blockLine e fuel path indent sameColumn props) := by
  intro c c' n h hn hline
  unfold blockLine at h ⊢
  obtain ⟨⟨own, c₁⟩, hown, hrest⟩ := bind_eq_ok_iff.mp h
  have hscan := orMalformed_eq_ok hown
  have hsuffix := scanProperties_suffix hscan
  have hline₁ := hline.of_suffix hsuffix
  rw [hown]
  change (if _ then _ else _) = _ at hrest
  change (if _ then _ else _) = _ ∧ _
  dsimp only at hrest ⊢
  split at hrest
  · rename_i hlater
    obtain ⟨merged, hmerged, hread⟩ := bind_eq_ok_iff.mp hrest
    obtain ⟨hread', hsuffix'⟩ := ih.content _ _ _ _ hread hn hline₁
    rw [if_pos hlater]
    exact ⟨bind_eq_ok_iff.mpr ⟨merged, hmerged, hread'⟩, hsuffix'.trans hsuffix⟩
  split at hrest
  · rename_i hlater hblock
    obtain ⟨merged, hmerged, hread⟩ := bind_eq_ok_iff.mp hrest
    obtain ⟨hread', hsuffix'⟩ := he.blockScalar_agrees _ _ hread hn hline₁
    rw [if_neg hlater, if_pos hblock]
    exact ⟨bind_eq_ok_iff.mpr ⟨merged, hmerged, hread'⟩, hsuffix'.trans hsuffix⟩
  rename_i hlater hblock
  rw [if_neg hlater, if_neg hblock]
  split at hrest
  · rename_i k hkey
    obtain ⟨⟨entry, c₂⟩, hvalue, hmapping⟩ := bind_eq_ok_iff.mp hrest
    obtain ⟨more, hshape⟩ := exists_of_blockMapping hmapping
    have hentry : NewEntry e P [] entry := he.newEntry (hshape ▸ hn)
    have hkeyP : P k.1 := shortValue_key hvalue ▸ hentry.key
    obtain ⟨hkey', hsuffix'⟩ := he.blockKey_agrees _ _ hkey hkeyP hline
    have hopen : (k.2.openAnchor props.anchor).rest <:+ c.rest := by
      rwa [Cursor.openAnchor_rest]
    obtain ⟨hvalue', hsuffix''⟩ :=
      ih.shortValue _ _ _ hvalue hentry.value (hline.of_suffix hopen)
    have hrest := hsuffix''.trans hopen
    obtain ⟨hmapping', hend⟩ := ih.mapping _ _ _ _ hmapping hn (hline.of_suffix hrest)
    rw [hkey']
    exact ⟨bind_eq_ok_iff.mpr ⟨_, hvalue', hmapping'⟩, hend.trans hrest⟩
  · cases hrest
  · rename_i hkey
    obtain ⟨merged, hmerged, hread⟩ := bind_eq_ok_iff.mp hrest
    obtain ⟨hread', hsuffix'⟩ := he.contentNode_agrees _ _ _ hread hn hline₁
    have hwithin := Props.within_of_merge? (orMalformed_eq_ok hmerged)
    rw [hd.blockKey_malformed he hscan hwithin hread hn hkey]
    exact ⟨bind_eq_ok_iff.mpr ⟨merged, hmerged, hread'⟩, hsuffix'.trans hsuffix⟩

theorem content_succ (hd : Extends d d P) (path : NodePath) (indent : Int) (sameColumn : Bool)
    (props : Props) :
    Agrees P (blockContent d (fuel + 1) path indent sameColumn props)
      (blockContent e (fuel + 1) path indent sameColumn props) := by
  intro c c' n h hn hline
  rw [blockContent_succ] at h ⊢
  have hopen : EndsLine (c.openAnchor props.anchor).rest := by
    rwa [Cursor.openAnchor_rest]
  by_cases hend : (c.atEnd || decide ((c.pos.column : Int) < indent)) = true
  · rw [if_pos hend] at h ⊢
    exact he.finishNode_agrees h
  rw [if_neg hend] at h ⊢
  by_cases hdash : c.atIndicator '-' = true
  · rw [if_pos hdash] at h ⊢
    split at h
    · cases h
    rename_i hkeys
    rw [if_neg hkeys]
    split at h
    · rename_i hcolumn
      rw [if_pos hcolumn]
      simpa using ih.sequence _ _ _ _ _ h hn hopen
    · rename_i hcolumn
      rw [if_neg hcolumn]
      exact he.finishNode_agrees h
  rw [if_neg hdash] at h ⊢
  by_cases hblock : (c.atChar '|' || c.atChar '>') = true
  · rw [if_pos hblock] at h ⊢
    exact he.blockScalar_agrees _ _ h hn hline
  rw [if_neg hblock] at h ⊢
  by_cases hcolumn : ((c.pos.column : Int) == indent) = true
  · rw [if_pos hcolumn] at h ⊢
    exact he.finishNode_agrees h
  rw [if_neg hcolumn] at h ⊢
  by_cases hmark : c.atIndicator '?' = true
  · rw [if_pos hmark] at h ⊢
    split at h
    · cases h
    rename_i hkeys
    rw [if_neg hkeys]
    simpa using ih.mapping _ _ _ _ h hn hopen
  · rw [if_neg hmark] at h ⊢
    exact ih.line he hd _ _ _ _ h hn hline

end BlockReads

/-- What is read outside brackets is read in the other dialect, too: every unit of fuel reads
    one more level. -/
theorem Extends.blockReads (he : Extends d e P) (hd : Extends d d P) (fuel : Nat) :
    BlockReads d e P fuel := by
  induction fuel with
  | zero =>
    constructor
    case node => exact fun _ _ _ _ _ _ h => nomatch h
    case content => exact fun _ _ _ _ _ _ _ h => nomatch h
    case sequence => exact fun _ _ _ _ _ _ _ _ h => nomatch h
    case mapping => exact fun _ _ _ _ _ _ _ h => nomatch h
  | succ fuel ih =>
    exact {
      node := ih.node_succ
      content := ih.content_succ he hd
      sequence := ih.sequence_succ he
      mapping := ih.mapping_succ he }

/-! ## Documents -/

/-- Directives leave an end of the text. -/
theorem readDirectives_suffix {r : Cursor × Bool} (h : readDirectives fuel c = .ok r) :
    r.1.rest <:+ c.rest := by
  induction fuel generalizing c r with
  | zero => cases h
  | succ fuel ih =>
    have htoken := Cursor.toToken_suffix false c
    rw [readDirectives] at h
    dsimp only at h
    split at h
    · obtain ⟨handles, -, hrest⟩ := bind_eq_ok_iff.mp h
      obtain ⟨after, hafter, hend⟩ := bind_eq_ok_iff.mp hrest
      obtain rfl := Except.ok.inj hend
      have hline : _ <:+ ((c.toToken false).rest.drop _).drop 1 := ih hafter
      exact hline.trans
        ((List.drop_suffix _ _).trans ((List.drop_suffix _ _).trans htoken))
    · obtain rfl := Except.ok.inj h
      exact htoken

/-- A document that starts alike in two dialects, and whose last line has an end, is read in
    the other dialect as what the stricter one reads. -/
theorem Extends.readDocument (he : Extends d e P) (hd : Extends d d P) {text : String}
    (hstart : e.start? text = d.start? text)
    (hline : ∀ c ∈ d.start? text, EndsLine c.rest) {r : Option Node}
    (h : readDocument d text = .ok r) (hr : ∀ n ∈ r, P n) : readDocument e text = .ok r := by
  unfold Yaml.readDocument at h ⊢
  rw [hstart]
  obtain ⟨c, hc, hrest⟩ := bind_eq_ok_iff.mp h
  obtain ⟨⟨c₁, directives⟩, hdirectives, hread⟩ := bind_eq_ok_iff.mp hrest
  have hline₁ := (hline c (orMalformed_eq_ok hc)).of_suffix (readDirectives_suffix hdirectives)
  refine bind_eq_ok_iff.mpr ⟨c, hc, bind_eq_ok_iff.mpr ⟨_, hdirectives, ?_⟩⟩
  have hblock {c₀ : Cursor} (hsuffix : c₀.rest <:+ c₁.rest)
      (h : (blockNode d (readingFuel c.rest) [] (-1) false c₀ >>= fun b =>
        if endsStream (readingFuel c.rest) b.2 then .ok (some b.1) else .error .malformed) =
          .ok r) :
      (blockNode e (readingFuel c.rest) [] (-1) false c₀ >>= fun b =>
        if endsStream (readingFuel c.rest) b.2 then .ok (some b.1) else .error .malformed) =
          .ok r := by
    obtain ⟨⟨n, c'⟩, hnode, hend⟩ := bind_eq_ok_iff.mp h
    have hn : P n := by
      dsimp only at hend
      split at hend
      · exact hr n (Except.ok.inj hend ▸ rfl)
      · cases hend
    obtain ⟨hnode', -⟩ :=
      (he.blockReads hd _).node _ _ _ hnode hn (hline₁.of_suffix hsuffix)
    exact bind_eq_ok_iff.mpr ⟨_, hnode', hend⟩
  dsimp only at hread ⊢
  by_cases hmarker : c₁.atMarker '-' = true
  · rw [if_pos hmarker] at hread ⊢
    exact hblock (Cursor.skip_suffix 3 c₁) hread
  rw [if_neg hmarker] at hread ⊢
  split at hread
  · cases hread
  rename_i hnone
  rw [if_neg hnone]
  split at hread
  · rename_i hempty
    rw [if_pos hempty]
    exact hread
  rename_i hempty
  rw [if_neg hempty]
  split at hread
  · cases hread
  · rename_i hend
    rw [if_neg hend]
    exact hblock (List.suffix_refl _) hread

end RunPlan.Yaml
