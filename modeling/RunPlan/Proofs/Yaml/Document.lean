import RunPlan.Proofs.Yaml.Block
import RunPlan.Proofs.Yaml.Printable

/-!
# Documents are read back

`IsWritten` describes the data that a document can hold without tags: scalars, sequences, and
mappings whose keys are different and fit on a line. The document of such a mapping is read back
strictly, to the nodes that stand in it and to the value it was made from.

## Key results

- `IsWritten.readsBack`: every part of a document is read back
- `readDocument_entries`: a document of entries and comments is read
- `readDocument_render`, `readNode_render`: a whole document is read back
-/

namespace RunPlan.Yaml

/-- Data that is printed so that it is read back, with a bound on its nesting. -/
inductive IsWritten : Nat → Value → Prop where
  | scalar {height : Nat} {v : Value} (h : IsScalar v) : IsWritten height v
  | sequence {height : Nat} {vs : List Value} (h : ∀ v ∈ vs, IsWritten height v) :
      IsWritten (height + 1) (.sequence vs)
  | mapping {height : Nat} {es : List (Value × Value)} (hkeys : ∀ e ∈ es, IsLineKey e.1)
      (hdistinct : es.Pairwise fun e f => e.1.sameKey f.1 = false)
      (h : ∀ e ∈ es, IsWritten height e.2) : IsWritten (height + 1) (.mapping es)

variable {height : Nat} {v : Value} {es : List (Value × Value)}
  {fields : List (String × Value)}

/-- A record with names as keys is such data. -/
theorem IsWritten.record (hnames : ∀ f ∈ fields, IsFieldName f.1)
    (hdistinct : (fields.map Prod.fst).Nodup) (h : ∀ f ∈ fields, IsWritten height f.2) :
    IsWritten (height + 1) (.record fields) := by
  obtain ⟨hkeys, hdiffer⟩ := keys_record hnames hdistinct
  refine .mapping hkeys hdiffer fun e he => ?_
  obtain ⟨f, hf, rfl⟩ := List.mem_map.mp he
  exact h f hf

/-- A larger bound is a bound. -/
theorem IsWritten.mono (h : IsWritten height v) {height' : Nat} (hle : height ≤ height') :
    IsWritten height' v := by
  induction h generalizing height' with
  | scalar h => exact .scalar h
  | sequence _ ih =>
    obtain ⟨height', rfl⟩ : ∃ n, height' = n + 1 := ⟨height' - 1, by omega⟩
    exact .sequence fun v hv => ih v hv (by omega)
  | mapping hkeys hdistinct _ ih =>
    obtain ⟨height', rfl⟩ : ∃ n, height' = n + 1 := ⟨height' - 1, by omega⟩
    exact .mapping hkeys hdistinct fun e he => ih e he (by omega)

/-- Every part of a document is read back after its key or its dash. -/
theorem IsWritten.readsBack (h : IsWritten height v) (indent : Nat) (lead : Lead) :
    ReadsBack indent lead v (writtenNode v) := by
  induction h generalizing indent lead with
  | scalar h => exact h.readsBack indent lead
  | @sequence _ vs _ ih =>
    rcases List.eq_nil_or_concat vs with rfl | ⟨_, _, rfl⟩
    · exact (readsBack_empty indent lead).1
    · exact readsBack_sequence (by simp) lead fun column v hv => ih v hv column .item
  | @mapping _ es hkeys hdistinct _ ih =>
    rcases List.eq_nil_or_concat es with rfl | ⟨_, _, rfl⟩
    · exact (readsBack_empty indent lead).2
    · exact readsBack_mapping (by simp) hkeys hdistinct lead fun e he => ih e he (indent + 2) .key

/-! ## Characters -/

/-- A scalar is written in printable characters. -/
theorem IsScalar.isPrintable_body (h : IsScalar v) (indent : Nat) (lead : Lead) :
    ∀ c ∈ body indent lead v, isPrintable c = true := by
  intro c hc
  rcases h.isAtom_or with ⟨text, hatom⟩ | ⟨s, rfl⟩
  · rw [body_atom hatom.atom, List.mem_cons, List.mem_append, List.mem_singleton] at hc
    rcases hc with rfl | hc | rfl
    · rfl
    · exact hatom.plain.printable c hc
    · rfl
  · rw [body, List.mem_cons] at hc
    rcases hc with rfl | hc
    · rfl
    · exact isPrintable_textLine _ s c hc

/-- A key on a line is written in printable characters. -/
theorem IsScalar.isPrintable_simpleKey (h : IsScalar v) {cs : List Char}
    (hkey : simpleKey? v = some cs) : ∀ c ∈ cs, isPrintable c = true := by
  rcases h.isAtom_or with ⟨text, hatom⟩ | ⟨s, rfl⟩
  · obtain rfl := Option.some.inj (hatom.simpleKey_eq.1.symm.trans hkey)
    exact hatom.plain.printable
  · rw [simpleKey?] at hkey
    split at hkey
    · cases hkey
    · obtain rfl := Option.some.inj hkey
      exact isPrintable_keyText s

/-- Printable parts are printable together. -/
private theorem isPrintable_append {cs ds : List Char} (h : ∀ c ∈ cs, isPrintable c = true)
    (h' : ∀ c ∈ ds, isPrintable c = true) : ∀ c ∈ cs ++ ds, isPrintable c = true :=
  List.forall_mem_append.mpr ⟨h, h'⟩

/-- Items are written in printable characters when each of them is. -/
theorem isPrintable_items {vs : List Value} {column : Nat}
    (h : ∀ v ∈ vs, ∀ c ∈ body column .item v, isPrintable c = true) :
    ∀ c ∈ items column vs, isPrintable c = true := by
  rw [items_eq_flatMap]
  intro c hc
  obtain ⟨v, hv, hc⟩ := List.mem_flatMap.mp hc
  refine isPrintable_append (isPrintable_pad column) ?_ c hc
  exact List.forall_mem_cons.mpr ⟨rfl, h v hv⟩

/-- An entry is written in printable characters when its value is. -/
theorem isPrintable_entry {e : Value × Value} (hkey : IsLineKey e.1) {column : Nat}
    (h : ∀ c ∈ body column .key e.2, isPrintable c = true) :
    ∀ c ∈ entry column e, isPrintable c = true := by
  obtain ⟨cs, hcs, -⟩ := hkey.fits
  have hprintable := hkey.scalar.isPrintable_simpleKey hcs
  rw [entry, hcs]
  exact isPrintable_append hprintable (List.forall_mem_cons.mpr ⟨rfl, h⟩)

/-- Entries are written in printable characters when their values are. -/
theorem isPrintable_entries (hkeys : ∀ e ∈ es, IsLineKey e.1) {column : Nat}
    (h : ∀ e ∈ es, ∀ c ∈ body column .key e.2, isPrintable c = true) :
    ∀ c ∈ entries column es, isPrintable c = true := by
  rw [entries_eq_flatMap]
  intro c hc
  obtain ⟨e, he, hc⟩ := List.mem_flatMap.mp hc
  exact isPrintable_append (isPrintable_pad column) (isPrintable_entry (hkeys e he) (h e he)) c hc

/-- Every part of a document is written in printable characters. -/
theorem IsWritten.isPrintable_body (h : IsWritten height v) (indent : Nat) (lead : Lead) :
    ∀ c ∈ body indent lead v, isPrintable c = true := by
  induction h generalizing indent lead with
  | scalar h => exact h.isPrintable_body indent lead
  | @sequence _ vs _ ih =>
    cases vs with
    | nil =>
      rw [body]
      exact List.all_eq_true.mp rfl
    | cons v vs =>
      cases lead with
      | key =>
        rw [body]
        exact List.forall_mem_cons.mpr
          ⟨rfl, isPrintable_items fun w hw => ih w hw indent .item⟩
      | item =>
        rw [body]
        exact isPrintable_append
          (isPrintable_append (List.all_eq_true.mp rfl) (ih v List.mem_cons_self (indent + 2) .item))
          (isPrintable_items fun w hw =>
            ih w (List.mem_cons_of_mem v hw) (indent + 2) .item)
  | @mapping _ es hkeys hdistinct _ ih =>
    cases es with
    | nil =>
      rw [body]
      exact List.all_eq_true.mp rfl
    | cons e es =>
      have hentries := isPrintable_entries hkeys fun f hf => ih f hf (indent + 2) .key
      cases lead with
      | key =>
        rw [body]
        exact List.forall_mem_cons.mpr ⟨rfl, hentries⟩
      | item =>
        -- the entries without the indentation of the first one
        rw [body]
        rw [entries] at hentries
        refine List.forall_mem_cons.mpr ⟨rfl, fun c hc => hentries c ?_⟩
        rw [List.append_assoc]
        exact List.mem_append_right _ hc

/-! ## Values -/

/-- The items of a sequence have their values. -/
private theorem itemValues_writtenItems {vs : List Value}
    (h : ∀ v ∈ vs, (writtenNode v).toValue = some v) :
    itemValues (writtenItems vs) = some vs := by
  induction vs with
  | nil => rfl
  | cons v vs ih =>
    rw [writtenItems, itemValues, h v List.mem_cons_self,
      ih fun w hw => h w (List.mem_cons_of_mem v hw)]

/-- The entries of a mapping have their values. -/
private theorem entryValues_writtenEntries (hkeys : ∀ e ∈ es, IsLineKey e.1)
    (h : ∀ e ∈ es, (writtenNode e.2).toValue = some e.2) :
    entryValues (writtenEntries es) = some es := by
  induction es with
  | nil => rfl
  | cons e es ih =>
    rw [writtenEntries, entryValues, (hkeys e List.mem_cons_self).scalar.toValue_eq,
      h e List.mem_cons_self, ih (fun f hf => hkeys f (List.mem_cons_of_mem e hf))
        fun f hf => h f (List.mem_cons_of_mem e hf)]

/-- Every part of a document has the value it was written for. -/
theorem IsWritten.toValue_eq (h : IsWritten height v) : (writtenNode v).toValue = some v := by
  induction h with
  | scalar h => exact h.toValue_eq
  | sequence _ ih =>
    rw [writtenNode, Node.toValue, itemValues_writtenItems ih]
    rfl
  | mapping hkeys _ _ ih =>
    rw [writtenNode, Node.toValue, entryValues_writtenEntries hkeys ih]
    rfl

/-- A scalar is a node without parts. -/
theorem IsScalar.node_eq (h : IsScalar v) :
    ∃ plain text, writtenNode v = .scalar none plain text := by
  rcases h.isAtom_or with ⟨text, hatom⟩ | ⟨s, rfl⟩
  · exact ⟨true, text, hatom.node⟩
  · exact ⟨_, s, by rw [writtenNode]⟩

/-- The items of a sequence are not nested deeper than each of them. -/
private theorem depthItems_le {vs : List Value} (h : ∀ v ∈ vs, (writtenNode v).depth ≤ height) :
    depthItems (writtenItems vs) ≤ height := by
  induction vs with
  | nil => exact Nat.zero_le _
  | cons v vs ih =>
    rw [writtenItems, depthItems]
    exact Nat.max_le.mpr ⟨h v List.mem_cons_self,
      ih fun w hw => h w (List.mem_cons_of_mem v hw)⟩

/-- The entries of a mapping are not nested deeper than each of their values. -/
private theorem depthEntries_le (hkeys : ∀ e ∈ es, IsLineKey e.1)
    (h : ∀ e ∈ es, (writtenNode e.2).depth ≤ height) :
    depthEntries (writtenEntries es) ≤ height := by
  induction es with
  | nil => exact Nat.zero_le _
  | cons e es ih =>
    have hrest := ih (fun f hf => hkeys f (List.mem_cons_of_mem e hf))
      fun f hf => h f (List.mem_cons_of_mem e hf)
    rw [writtenEntries, depthEntries, (hkeys e List.mem_cons_self).isKey.1, Node.depth]
    exact Nat.max_le.mpr ⟨Nat.max_le.mpr ⟨Nat.zero_le _, h e List.mem_cons_self⟩, hrest⟩

/-- The nesting is bounded. -/
theorem IsWritten.depth_le (h : IsWritten height v) : (writtenNode v).depth ≤ height := by
  induction h with
  | scalar h =>
    obtain ⟨plain, text, hnode⟩ := h.node_eq
    rw [hnode, Node.depth]
    exact Nat.zero_le _
  | sequence _ ih =>
    rw [writtenNode, Node.depth]
    have := depthItems_le ih
    omega
  | mapping hkeys _ _ ih =>
    rw [writtenNode, Node.depth]
    have := depthEntries_le hkeys ih
    omega

/-- The items of a sequence have no aliases when none of them has. -/
private theorem spendItems_eq {vs : List Value} {budget : Nat}
    (h : ∀ v ∈ vs, (writtenNode v).spend budget = some budget) :
    spendItems (writtenItems vs) budget = some budget := by
  induction vs with
  | nil => rw [writtenItems, spendItems]
  | cons v vs ih =>
    rw [writtenItems, spendItems, h v List.mem_cons_self]
    exact ih fun w hw => h w (List.mem_cons_of_mem v hw)

/-- The entries of a mapping have no aliases when none of their values has. -/
private theorem spendEntries_eq {budget : Nat} (hkeys : ∀ e ∈ es, IsLineKey e.1)
    (h : ∀ e ∈ es, (writtenNode e.2).spend budget = some budget) :
    spendEntries (writtenEntries es) budget = some budget := by
  induction es with
  | nil => rw [writtenEntries, spendEntries]
  | cons e es ih =>
    rw [writtenEntries, spendEntries, (hkeys e List.mem_cons_self).isKey.1, Node.spend]
    simp only [h e List.mem_cons_self]
    exact ih (fun f hf => hkeys f (List.mem_cons_of_mem e hf))
      fun f hf => h f (List.mem_cons_of_mem e hf)

/-- There are no aliases to follow. -/
theorem IsWritten.spend_eq (h : IsWritten height v) (budget : Nat) :
    (writtenNode v).spend budget = some budget := by
  induction h with
  | scalar h =>
    obtain ⟨plain, text, hnode⟩ := h.node_eq
    rw [hnode, Node.spend]
  | sequence _ ih =>
    rw [writtenNode, Node.spend]
    exact spendItems_eq ih
  | mapping hkeys _ _ ih =>
    rw [writtenNode, Node.spend]
    exact spendEntries_eq hkeys ih

/-! ## Documents -/

/-- The document of a mapping is its entries. -/
theorem toList_render_mapping (hne : es ≠ []) :
    (render (.mapping es)).toList = entries 0 es := by
  obtain ⟨e, es, rfl⟩ := List.exists_cons_of_ne_nil hne
  rw [render, String.toList_ofList]

/-- The reader starts at the first character of a printable text. -/
theorem strictStart?_eq {text : String} (h : ∀ c ∈ text.toList, isPrintable c = true) :
    strictStart? text = some { rest := text.toList } := by
  have hallowed : text.toList.all isAllowed = true := by
    rw [List.all_eq_true]
    exact fun c hc => isAllowed_of_isPrintable (h c hc)
  rw [strictStart?, normalizeBreaks_eq_self h, hallowed]
  cases htext : text.toList with
  | nil => rfl
  | cons c cs =>
    have hmark : c.toNat ≠ 0xFEFF := by
      intro hcode
      have hc := h c (by rw [htext]; exact List.mem_cons_self)
      simp [isPrintable, hcode] at hc
    simp [hmark]

/-- A document that starts with a key is read as the node at that key, void lines before it
    being passed. -/
theorem readDocument_start {key : List Char} {plain : Bool} {name text : String}
    {voids : List (List Char)} {rest : List Char} (hkey : IsKey key plain name)
    (hvoids : ∀ line ∈ voids, isVoidLine line = true)
    (hprintable : ∀ c ∈ text.toList, isPrintable c = true)
    (htext : text.toList = Text.unlines voids ++ (key ++ ':' :: rest)) :
    ∃ fuel start, 2 * text.toList.length + 2 ≤ fuel ∧
      start.At 0 true (key ++ ':' :: rest) ∧
      readDocument strictDialect text =
        (blockContent strictDialect fuel [] (-1) false {} start).bind fun (n, c) =>
          if endsStream (fuel + 1) c then .ok (some n) else .error .malformed := by
  obtain ⟨fuel, hfuel⟩ : ∃ fuel, readingFuel text.toList = fuel + 1 :=
    ⟨4 * text.toList.length + 15, rfl⟩
  have hstarts := hkey.starts (':' :: rest)
  obtain ⟨start, hstart⟩ : ∃ start,
      (Cursor.mk text.toList {} true [] []).toToken false = start := ⟨_, rfl⟩
  have hat : start.At 0 true (key ++ ':' :: rest) := by
    obtain ⟨q, hq, hgap⟩ := gap_voids hvoids (p := {}) rfl (key ++ ':' :: rest)
    rw [← htext, gap_token hstarts.token] at hgap
    rw [← hstart]
    exact Cursor.before_of_gap hq hgap rfl rfl
  refine ⟨fuel, start, by simp only [readingFuel] at hfuel; omega, hat, ?_⟩
  -- a key stands at the start: no directive and no marker
  have hpercent : start.atChar '%' = false := by
    rw [Cursor.atChar, beq_eq_false_iff_ne, hat.rest]
    intro hpercent
    exact hstarts.head '%' hpercent (by simp)
  have hend := (hkey.start hat).1
  rw [Cursor.atEnd, Bool.or_eq_false_iff] at hend
  have hmarker (mark : Char) : start.atMarker mark = false := by
    rw [Cursor.atMarker, hend.2, Bool.false_and]
  rw [readDocument, show strictDialect.start? text = strictStart? text from rfl,
    strictStart?_eq hprintable]
  simp only [orMalformed, bind, Except.bind, hfuel, readDirectives, hstart, hpercent,
    Bool.and_false, Bool.false_eq_true, if_false, hmarker, hend.1]
  rw [blockNode, hat.toToken_eq hstarts.token]

/-- A document of entries is read, with void lines before them. -/
theorem readDocument_entries {entries : List BlockEntry} (hne : entries ≠ [])
    (hreads : ∀ e ∈ entries, e.Reads 0) (hdistinct : entries.Pairwise BlockEntry.Differ)
    {voids : List (List Char)} (hvoids : ∀ line ∈ voids, isVoidLine line = true)
    {text : String} (hprintable : ∀ c ∈ text.toList, isPrintable c = true)
    (htext : text.toList = Text.unlines voids ++ entries.flatMap fun e => pad 0 ++ e.chars) :
    readDocument strictDialect text =
      .ok (some (.mapping none (entries.map BlockEntry.nodes))) := by
  have hfirst : (entries.flatMap fun e => pad 0 ++ e.chars) =
      (firstLine 0 BlockEntry.chars ⟨0, []⟩ entries).text := by
    have hchars := chars_firstLine 0 BlockEntry.chars ⟨0, []⟩ entries
    obtain ⟨e, entries, rfl⟩ := List.exists_cons_of_ne_nil hne
    exact (hchars.trans (List.append_nil _)).symm
  have hstart : ∃ e rest, e ∈ entries ∧
      (firstLine 0 BlockEntry.chars ⟨0, []⟩ entries).text = e.key ++ ':' :: rest := by
    obtain ⟨e, entries, rfl⟩ := List.exists_cons_of_ne_nil hne
    exact ⟨e, _, List.mem_cons_self, List.append_assoc ..⟩
  obtain ⟨e, rest, he, hrest⟩ := hstart
  obtain ⟨fuel, start, hfuel, hat, hdocument⟩ := readDocument_start (hreads e he).key hvoids
    hprintable (htext.trans (by rw [hfirst, hrest]))
  have hlength := congrArg List.length htext
  have hparts := length_flatMap_le 0 BlockEntry.chars entries
  rw [List.length_append] at hlength
  rw [← hrest] at hat
  -- after the last entry the text ends
  obtain ⟨c', hread, hafter⟩ := blockContent_mapping hne hreads hdistinct
    (show (-1 : Int) < (0 : Nat) by omega) false (Or.inl rfl)
    (Follows.nil (Nat.le_refl 0) .key) fuel [] (by omega) hat
  have hstops : endsStream (fuel + 1) c' = true := by
    rw [endsStream, hafter.rest]
    rfl
  rw [hdocument, hread]
  simp only [Except.bind, hstops, if_true]

/-- A document is malformed when what is after its first name is. -/
theorem readDocument_malformed {name text : String} {voids : List (List Char)} {rest : List Char}
    (hname : IsFieldName name) (hvoids : ∀ line ∈ voids, isVoidLine line = true)
    (hblank : atBlank rest = true)
    (hrest : ∀ {c : Cursor} {column : Nat}, c.At column false rest → 0 < column →
      ∀ fuel path, blockNode strictDialect (fuel + 2) path 0 true c = .error .malformed)
    (hprintable : ∀ c ∈ text.toList, isPrintable c = true)
    (htext : text.toList = Text.unlines voids ++ (name.toList ++ ':' :: rest)) :
    readDocument strictDialect text = .error .malformed := by
  obtain ⟨fuel, start, hfuel, hat, hdocument⟩ := readDocument_start hname.isKey hvoids hprintable
    htext
  have hlength := congrArg List.length htext
  simp only [List.length_append, List.length_cons] at hlength
  obtain ⟨fuel, rfl⟩ : ∃ f, fuel = f + 3 := ⟨fuel - 3, by omega⟩
  obtain ⟨c, column, hcolumn, hcolon, hkey⟩ := hname.isKey.blockKey_eq hblank hat
    (show (-1 : Int) ≤ (0 : Nat) by omega) (fuel + 2) []
  have hnode := hrest (hcolon.skip_one false) (by omega) fuel [.key name]
  have hstep : (Node.scalar none true name).step = .key name := rfl
  rw [hdocument, (hname.isKey.starts _).toStartsInline.blockContent_eq hat
    (hname.isKey.start hat).1 (by omega), hkey]
  simp only [hstep, bind, Except.bind]
  rw [show ((0 : Nat) : Int) = 0 from rfl, hnode]

/-- A document is read back to the nodes that stand in it. -/
theorem readDocument_render (hne : es ≠ []) (h : IsWritten height (.mapping es)) :
    readDocument strictDialect (render (.mapping es)) =
      .ok (some (writtenNode (.mapping es))) := by
  cases h with
  | scalar h => cases h
  | mapping hkeys hdistinct h =>
    have htext := toList_render_mapping hne
    have hprintable := isPrintable_entries hkeys fun e he => (h e he).isPrintable_body 0 .key
    rw [← htext] at hprintable
    rw [entries_eq_written hkeys] at htext
    rw [writtenNode, writtenEntries_eq hkeys 0]
    refine readDocument_entries (by simpa using hne) ?_ (pairwise_writtenEntry hkeys hdistinct 0)
      forall_isVoidLine_nil hprintable htext
    intro e he
    obtain ⟨f, hf, rfl⟩ := List.mem_map.mp he
    exact reads_writtenEntry (hkeys f hf) ((h f hf).readsBack 0 .key)

/-- A document is read back to its nodes and their value. -/
theorem readNode_render (hne : es ≠ []) (h : IsWritten height (.mapping es))
    (hheight : height ≤ maxDepth) :
    readNode (render (.mapping es)) = .ok (writtenNode (.mapping es), .mapping es) := by
  have hdepth : ¬ maxDepth < (writtenNode (.mapping es)).depth := by
    have := h.depth_le
    omega
  rw [readNode, readDocument_render hne h]
  simp [hdepth, h.spend_eq, h.toValue_eq, orMalformed, bind, Except.bind]

/-- A key that needs quotes, and below it what is written in brackets and without. -/
example :
    let v : Value := .mapping [(.string "a: 'b'", .sequence [.sequence [], .int (-2), .float .nan])]
    readNode (render v) = .ok (writtenNode v, v) := by
  refine readNode_render (List.cons_ne_nil _ _) (.mapping ?_ (by simp) ?_) (by decide : 3 ≤ maxDepth)
  · exact List.forall_mem_singleton.mpr (isLineKey_string_iff.mpr (by decide))
  · refine List.forall_mem_singleton.mpr (.sequence ?_)
    simpa using ⟨.sequence (List.forall_mem_nil _), .scalar (.int (by decide) (by decide)),
      .scalar (.float fun _ => rfl)⟩

end RunPlan.Yaml
