import RunPlan.Proofs.Yaml.Key

/-!
# Collections in block style are read back

The items of a sequence and the entries of a mapping stand on lines of their own, in one
column. The reader goes from line to line, and at the line after the last one
(`firstLine`) it sees that the collection ends: there the text ends, or the next token
stands further left, or a key stands where an item would.

## Key results

- `blockSequence_items`: the items of a sequence are read, and no more
- `blockMapping_entries`: the entries of a mapping are read, and no more
- `readsAsNode_mapping`: a mapping is read after a key, with comments before and after entries
- `readsBack_sequence`, `readsBack_mapping`: what the writer makes is read back after a key
-/

namespace RunPlan.Yaml

open Text

/-! ## Lines -/

/-- A line from its first token on, and the lines after it. -/
structure Line where
  column : Nat
  text : List Char

/-- The characters of a line, with its indentation. -/
def Line.chars (l : Line) : List Char :=
  pad l.column ++ l.text

/-- The first of several parts that start in a column, each on a line of its own. -/
def firstLine {α : Type} (column : Nat) (part : α → List Char) (after : Line) :
    List α → Line
  | [] => after
  | x :: xs => ⟨column, part x ++ (firstLine column part after xs).chars⟩

/-- The characters from the first line on are those of all parts. -/
theorem chars_firstLine {α : Type} (column : Nat) (part : α → List Char) (after : Line)
    (xs : List α) :
    (firstLine column part after xs).chars =
      xs.flatMap (fun x => pad column ++ part x) ++ after.chars := by
  induction xs with
  | nil => rfl
  | cons x xs ih => rw [firstLine, Line.chars, ih, List.flatMap_cons, List.append_assoc,
      List.append_assoc]

/-- The characters of parts without their indentation are no more. -/
theorem length_flatMap_le {α : Type} (column : Nat) (part : α → List Char) (xs : List α) :
    (xs.flatMap part).length ≤ (xs.flatMap fun x => pad column ++ part x).length := by
  induction xs with
  | nil => exact Nat.le_refl 0
  | cons x xs ih =>
    rw [List.flatMap_cons, List.flatMap_cons, List.length_append, List.length_append,
      List.length_append]
    omega

/-- The items of a sequence, line by line. -/
theorem items_eq_flatMap (indent : Nat) (vs : List Value) :
    items indent vs = vs.flatMap fun v => pad indent ++ '-' :: body indent .item v := by
  induction vs with
  | nil => rw [items, List.flatMap_nil]
  | cons v vs ih => rw [items, ih, List.flatMap_cons]

/-- The entries of a mapping, line by line. -/
theorem entries_eq_flatMap (indent : Nat) (es : List (Value × Value)) :
    entries indent es = es.flatMap fun e => pad indent ++ entry indent e := by
  induction es with
  | nil => rw [entries, List.flatMap_nil]
  | cons e es ih => rw [entries, ih, List.flatMap_cons]

variable {fuel k column : Nat} {path : NodePath} {keys : Bool} {c : Cursor} {after : Line}
  {rest : List Char}

/-! ## Sequences -/

/-- What stands after a dash starts on its line. -/
theorem body_item_eq (indent : Nat) (v : Value) : ∃ cs, body indent .item v = ' ' :: cs := by
  rcases v with _ | _ | _ | _ | _ | (_ | ⟨v, vs⟩) | (_ | ⟨e, es⟩) | _ <;> simp [body]

/-- A dash that a value stands after is an item of a sequence. -/
theorem Cursor.At.atDash {v : Value} {indent : Nat}
    (hc : c.At column keys ('-' :: (body indent .item v ++ rest))) :
    c.atEnd = false ∧ c.atIndicator '-' = true := by
  obtain ⟨text, htext⟩ := body_item_eq indent v
  constructor
  · simp [Cursor.atEnd, hc.rest, htext, isMarker]
  · simp [Cursor.atIndicator, hc.rest, htext, atBlank, isBlank]

/-- What follows the first items of a sequence. -/
theorem follows_items (vs : List Value)
    (hfollows : Follows .item column after.column after.text) :
    Follows .item column
      (firstLine column (fun v => '-' :: body column .item v) after vs).column
      (firstLine column (fun v => '-' :: body column .item v) after vs).text := by
  cases vs with
  | nil => exact hfollows
  | cons v vs => exact ⟨Nat.le_refl column, .cons (by decide) _, nofun, nofun⟩

/-- The items of a sequence are read, and no more. With `same` the next token may stand in
    their column, if it is no dash. -/
theorem blockSequence_items {vs : List Value}
    (hvs : ∀ v ∈ vs, ReadsBack column .item v (writtenNode v)) {same : Bool}
    (hsame : after.column = column → same = true)
    (hfollows : Follows .key column after.column after.text) (fuel : Nat) (path : NodePath)
    (acc : List Node)
    (hfuel : 2 * (vs.flatMap fun v => '-' :: body column .item v).length + 1 ≤ fuel)
    (hc : c.Before (firstLine column (fun v => '-' :: body column .item v) after vs).column
      (firstLine column (fun v => '-' :: body column .item v) after vs).text) :
    ∃ c', blockSequence strictDialect fuel path column same {} acc c =
      .ok (.sequence none (acc.reverse ++ writtenItems vs), c') ∧
        c'.Before after.column after.text := by
  obtain ⟨fuel, rfl⟩ : ∃ f, fuel = f + 1 := ⟨fuel - 1, by omega⟩
  -- the items read so far are in `acc`, and the cursor stands before the first of the others
  induction vs generalizing acc c fuel with
  | nil =>
    have hline : (c.toToken false).At after.column true after.text := hc
    refine ⟨c.toToken false, ?_, Cursor.At.before hc hfollows.token⟩
    rw [blockSequence, writtenItems, List.append_nil]
    -- the next line starts further left, or in this column, but not with a dash
    rcases Nat.lt_or_eq_of_le hfollows.le with hleft | hcolumn
    · simp only [hline.column, hleft, decide_true, Bool.or_true, if_true]
      rfl
    · have hdash : (c.toToken false).atIndicator '-' = false :=
        hline.atIndicator_eq_false (hfollows.dash rfl hcolumn)
      simp only [hdash, hline.column, hcolumn, hsame hcolumn, Nat.lt_irrefl, if_false,
        Bool.false_and, Bool.false_eq_true, if_true, ite_self]
      rfl
  | cons v vs ih =>
    rw [List.flatMap_cons, List.length_append, List.length_cons] at hfuel
    obtain ⟨fuel, rfl⟩ : ∃ f, fuel = f + 1 := ⟨fuel - 1, by omega⟩
    have hline : (c.toToken false).At column true ('-' :: (body column .item v ++
      (firstLine column (fun v => '-' :: body column .item v) after vs).chars)) := hc
    -- what follows the dash is the body of the item, which `ReadsBack` is about
    have hitem : (((c.toToken false).skip 1).allowKeys true).At (column + 1) true
        (body column .item v ++
          (firstLine column (fun v => '-' :: body column .item v) after vs).chars) :=
      hline.skip_one true
    obtain ⟨c₁, hread, hbefore⟩ := hvs v List.mem_cons_self (fuel + 1)
      (.index acc.length :: path) (by omega) hitem (by omega) (fun _ => ⟨rfl, rfl⟩)
      (follows_items vs hfollows.item)
    obtain ⟨c', hrest, hafter'⟩ := ih (fun v hv => hvs v (List.mem_cons_of_mem _ hv))
      (writtenNode v :: acc) hbefore fuel (by omega)
    refine ⟨c', ?_, hafter'⟩
    obtain ⟨hend, hdash⟩ := hline.atDash
    rw [show (Lead.item == Lead.key) = false from rfl] at hread
    rw [blockSequence]
    simp only [hend, hdash, hline.column, hline.keys, Nat.lt_irrefl, decide_false,
      Bool.or_false, Bool.false_eq_true, if_false, Bool.and_self, if_true, hread, bind,
      Except.bind, hrest]
    simp [writtenItems]

/-- A sequence is read at its first dash, and no more. With `same` it may stand in the column of
    the key before it. -/
theorem blockContent_sequence {vs : List Value} (hne : vs ≠ [])
    (hvs : ∀ v ∈ vs, ReadsBack column .item v (writtenNode v)) {indent : Nat} {same : Bool}
    (hindent : indent < column ∨ indent = column ∧ same = true)
    (hle : after.column ≤ indent) (hfollows : Follows .key column after.column after.text)
    (fuel : Nat) (path : NodePath)
    (hfuel : 2 * (vs.flatMap fun v => '-' :: body column .item v).length + 2 ≤ fuel)
    (hc : c.At column true
      (firstLine column (fun v => '-' :: body column .item v) after vs).text) :
    ∃ c', blockContent strictDialect fuel path indent same {} c =
      .ok (writtenNode (.sequence vs), c') ∧ c'.Before after.column after.text := by
  obtain ⟨v, vs, rfl⟩ := List.exists_cons_of_ne_nil hne
  obtain ⟨fuel, rfl⟩ : ∃ f, fuel = f + 1 := ⟨fuel - 1, by omega⟩
  have hline : c.At column true ('-' :: (body column .item v ++
    (firstLine column (fun v => '-' :: body column .item v) after vs).chars)) := hc
  have hsame : after.column = column → ((indent : Int) == (column : Int)) = true := by
    rw [beq_iff_eq]
    omega
  obtain ⟨c', hread, hafter'⟩ := blockSequence_items hvs hsame hfollows fuel path [] (by omega)
    (Cursor.At.before hc (.cons (by decide) _))
  refine ⟨c', ?_, hafter'⟩
  obtain ⟨hend, hdash⟩ := hline.atDash
  have hstands : (decide ((indent : Int) < (column : Int)) || same) = true := by
    rcases hindent with h | ⟨-, h⟩ <;> simp [h]
  have hlt : ¬ (column : Int) < indent := by omega
  rw [writtenNode, blockContent]
  simp only [hend, hdash, hline.column, hline.keys, hlt, hstands, decide_false, Bool.or_false,
    Bool.false_eq_true, if_false, Bool.not_true, if_true]
  exact hread

/-- A sequence is read back, in the column of its key or after a dash. -/
theorem readsBack_sequence {vs : List Value} (hne : vs ≠ []) {indent : Nat} (lead : Lead)
    (hvs : ∀ column, ∀ v ∈ vs, ReadsBack column .item v (writtenNode v)) :
    ReadsBack indent lead (.sequence vs) (writtenNode (.sequence vs)) := by
  intro fuel path k column keys c rest hfuel hc hindent hlead hrest
  have hchars (column : Nat) (vs : List Value) : items column vs ++ (pad k ++ rest) =
      (firstLine column (fun v => '-' :: body column .item v) ⟨k, rest⟩ vs).chars := by
    rw [items_eq_flatMap, chars_firstLine]
    rfl
  have hlength (column : Nat) (vs : List Value) :
      (vs.flatMap fun v => '-' :: body column .item v).length ≤ (items column vs).length := by
    rw [items_eq_flatMap]
    exact length_flatMap_le column _ vs
  obtain ⟨v, vs, rfl⟩ := List.exists_cons_of_ne_nil hne
  obtain ⟨fuel, rfl⟩ : ∃ f, fuel = f + 1 := ⟨fuel - 1, by omega⟩
  rw [blockNode]
  cases lead with
  | key =>
    have hbody : body indent .key (.sequence (v :: vs)) = '\n' :: items indent (v :: vs) := by
      rw [body]
    have hfirst := hlength indent (v :: vs)
    rw [hbody, List.length_cons] at hfuel
    rw [hbody, List.cons_append, hchars] at hc
    have hbefore := hc.before_newline (.cons (by decide) _)
    exact blockContent_sequence hne (hvs indent) (Or.inr ⟨rfl, rfl⟩) hrest.le hrest fuel path
      (by omega) hbefore
  | item =>
    -- the first dash stands on the line, the others below it
    obtain ⟨rfl, rfl⟩ := hlead rfl
    have hle := hrest.le
    have hbody : body indent .item (.sequence (v :: vs)) =
        ' ' :: '-' :: (body (indent + 2) .item v ++ items (indent + 2) vs) := by
      rw [body]
      rfl
    have hothers := hlength (indent + 2) vs
    rw [hbody] at hfuel
    simp only [List.length_cons, List.length_append] at hfuel
    rw [hbody, List.cons_append, List.cons_append, List.append_assoc, hchars] at hc
    have htoken := Cursor.At.toToken_pad (k := 1) hc (.cons (by decide) _)
    refine blockContent_sequence hne (hvs (indent + 2)) (Or.inl (by omega)) hle
      (hrest.of_lt (by show k < indent + 2; omega) .key) fuel path ?_ htoken
    rw [List.flatMap_cons, List.length_append, List.length_cons]
    omega

/-! ## Mappings -/

/-- An entry of a mapping: the text of its key, the key as it stands there, in quotes or without
    them, the text from the colon to the next entry, and the node that this text stands for. -/
structure BlockEntry where
  name : String
  key : List Char := name.toList
  plain : Bool := true
  text : List Char
  node : Node

namespace BlockEntry

/-- The characters of an entry. -/
def chars (e : BlockEntry) : List Char :=
  e.key ++ ':' :: e.text

/-- An entry is as long as its parts. -/
theorem length_chars (e : BlockEntry) : e.chars.length = e.key.length + 1 + e.text.length := by
  rw [chars, List.length_append, List.length_cons, Nat.add_assoc, Nat.add_comm 1]

/-- The node of the key. -/
def keyNode (e : BlockEntry) : Node :=
  .scalar none e.plain e.name

/-- The nodes of an entry. -/
def nodes (e : BlockEntry) : Node × Node :=
  (e.keyNode, e.node)

/-- Whether two entries have different keys. -/
def Differ (e f : BlockEntry) : Prop :=
  sameKeyNode e.keyNode f.keyNode = false

/-- What holds of an entry that is read in a mapping in a column. -/
structure Reads (column : Nat) (e : BlockEntry) : Prop where
  key : IsKey e.key e.plain e.name
  blank : ∀ rest, atBlank (e.text ++ rest) = true
  node : ReadsAsNode column .key e.text e.node

/-- A key that differs from those before it is not in the mapping yet. -/
theorem checkKey_eq {e : BlockEntry} {seen : List BlockEntry} (h : ∀ f ∈ seen, f.Differ e)
    (path : NodePath) :
    checkKey strictDialect path (seen.map nodes).reverse e.keyNode = .ok () := by
  rw [checkKey, if_neg]
  simp only [List.any_reverse, List.any_map, List.any_eq_true, not_exists, not_and,
    Bool.not_eq_true]
  exact fun f hf => h f hf

/-- The value of an entry, and the line after it. -/
theorem Reads.readValue {e : BlockEntry} (h : e.Reads column) {indent : Int}
    (hindent : indent ≤ column) (hfollows : Follows .key column after.column after.text)
    (fuel : Nat) (path : NodePath) (hfuel : 2 * e.text.length + 2 ≤ fuel)
    (hc : c.At column true (e.chars ++ after.chars)) :
    ∃ c₁ c₂ : Cursor, blockKey strictDialect fuel path indent c = .ok (e.keyNode, c₁) ∧
      blockNode strictDialect fuel (.key e.name :: path) column true
        ((c₁.skip 1).allowKeys false) = .ok (e.node, c₂) ∧
      c₂.Before after.column after.text := by
  rw [chars, List.append_assoc, List.cons_append] at hc
  obtain ⟨c₁, column', hcolumn, hcolon, hkey⟩ := h.key.blockKey_eq (h.blank _) hc hindent fuel
    path
  have hvalue : ((c₁.skip 1).allowKeys false).At (column' + 1) false
      (e.text ++ after.chars) := hcolon.skip_one false
  obtain ⟨c₂, hnode, hbefore⟩ := h.node fuel (.key e.name :: path) hfuel hvalue (by omega)
    nofun hfollows
  exact ⟨c₁, c₂, hkey, hnode, hbefore⟩

end BlockEntry

section

variable {entries : List BlockEntry}

/-- What follows the first entries of a mapping. -/
theorem follows_entries (hreads : ∀ e ∈ entries, e.Reads column)
    (hfollows : Follows .key column after.column after.text) :
    Follows .key column (firstLine column BlockEntry.chars after entries).column
      (firstLine column BlockEntry.chars after entries).text := by
  cases entries with
  | nil => exact hfollows
  | cons e entries =>
    have hstart := (hreads e List.mem_cons_self).key.starts
      (':' :: (e.text ++ (firstLine column BlockEntry.chars after entries).chars))
    rw [firstLine, BlockEntry.chars, List.append_assoc, List.cons_append]
    exact hstart.toStartsInline.follows (Nat.le_refl column) .key

/-- The entries of a mapping are read, and no more. -/
theorem blockMapping_entries (hreads : ∀ e ∈ entries, e.Reads column)
    (hend : after.text = [] ∨ after.column < column)
    (hfollows : Follows .key column after.column after.text) (fuel : Nat) (path : NodePath)
    (seen : List BlockEntry) (hdistinct : (seen ++ entries).Pairwise BlockEntry.Differ)
    (hfuel : 2 * (entries.flatMap BlockEntry.chars).length + 1 ≤ fuel)
    (hc : c.Before (firstLine column BlockEntry.chars after entries).column
      (firstLine column BlockEntry.chars after entries).text) :
    ∃ c', blockMapping strictDialect fuel path column {} (seen.map BlockEntry.nodes).reverse c =
      .ok (.mapping none ((seen ++ entries).map BlockEntry.nodes), c') ∧
        c'.Before after.column after.text := by
  obtain ⟨fuel, rfl⟩ : ∃ f, fuel = f + 1 := ⟨fuel - 1, by omega⟩
  -- the entries read so far are those of `seen`, in which no key may be found again
  induction entries generalizing seen c fuel with
  | nil =>
    have hline : (c.toToken false).At after.column true after.text := hc
    refine ⟨c.toToken false, ?_, Cursor.At.before hc hfollows.token⟩
    have hstop : ((c.toToken false).atEnd || decide (after.column < column)) = true := by
      rcases hend with h | h
      · simp [Cursor.atEnd, hline.rest, h]
      · simp [h]
    rw [blockMapping]
    simp only [hline.column, hstop, if_true, List.append_nil, List.reverse_reverse]
    rfl
  | cons e entries ih =>
    have he := hreads e List.mem_cons_self
    have hreads' : ∀ f ∈ entries, f.Reads column := fun f hf =>
      hreads f (List.mem_cons_of_mem _ hf)
    rw [List.flatMap_cons, List.length_append, e.length_chars] at hfuel
    obtain ⟨fuel, rfl⟩ : ∃ f, fuel = f + 1 := ⟨fuel - 1, by omega⟩
    obtain ⟨c₁, c₂, hkey, hvalue, hbefore⟩ := he.readValue (Int.le_refl column)
      (follows_entries hreads' hfollows) (fuel + 1) path (by omega) hc
    have hcheck := BlockEntry.checkKey_eq
      (fun f hf => (List.pairwise_append.mp hdistinct).2.2 f hf e List.mem_cons_self) path
    obtain ⟨c', hrest, hafter'⟩ := ih hreads' (seen ++ [e]) (by simpa using hdistinct)
      hbefore fuel (by omega)
    refine ⟨c', ?_, hafter'⟩
    have hline : (c.toToken false).At column true (e.chars ++
        (firstLine column BlockEntry.chars after entries).chars) := hc
    rw [BlockEntry.chars, List.append_assoc] at hline
    obtain ⟨hstart, hquestion⟩ := he.key.start hline
    have hstep : e.keyNode.step = .key e.name := rfl
    rw [List.map_append, List.reverse_append, List.append_assoc] at hrest
    rw [blockMapping]
    simp only [hstart, hquestion, hline.column, hline.keys, Nat.lt_irrefl, decide_false,
      Bool.or_false, Bool.not_true, Bool.false_eq_true, if_false, hkey, hcheck, hstep, hvalue,
      bind, Except.bind]
    exact hrest

/-- A mapping is read at its first key, and no more. -/
theorem blockContent_mapping (hne : entries ≠ []) (hreads : ∀ e ∈ entries, e.Reads column)
    (hdistinct : entries.Pairwise BlockEntry.Differ) {indent : Int} (hindent : indent < column)
    (same : Bool) (hend : after.text = [] ∨ after.column < column)
    (hfollows : Follows .key column after.column after.text) (fuel : Nat) (path : NodePath)
    (hfuel : 2 * (entries.flatMap BlockEntry.chars).length + 2 ≤ fuel)
    (hc : c.At column true (firstLine column BlockEntry.chars after entries).text) :
    ∃ c', blockContent strictDialect fuel path indent same {} c =
      .ok (.mapping none (entries.map BlockEntry.nodes), c') ∧
        c'.Before after.column after.text := by
  obtain ⟨e, entries, rfl⟩ := List.exists_cons_of_ne_nil hne
  obtain ⟨fuel, rfl⟩ : ∃ f, fuel = f + 1 := ⟨fuel - 1, by omega⟩
  have he := hreads e List.mem_cons_self
  have hreads' : ∀ f ∈ entries, f.Reads column := fun f hf =>
    hreads f (List.mem_cons_of_mem e hf)
  rw [List.flatMap_cons, List.length_append, e.length_chars] at hfuel
  obtain ⟨c₁, c₂, hkey, hvalue, hbefore⟩ := he.readValue (Int.le_of_lt hindent)
    (follows_entries hreads' hfollows) fuel path (by omega) hc
  obtain ⟨c', hrest, hafter'⟩ := blockMapping_entries hreads' hend hfollows fuel path [e]
    hdistinct (by omega) hbefore
  refine ⟨c', ?_, hafter'⟩
  have hline : c.At column true (e.key ++ (':' :: (e.text ++
      (firstLine column BlockEntry.chars after entries).chars))) := by
    simpa [firstLine, BlockEntry.chars] using hc
  have hstep : e.keyNode.step = .key e.name := rfl
  rw [(he.key.starts _).toStartsInline.blockContent_eq hline (he.key.start hline).1 hindent,
    hkey]
  simp only [hstep, hvalue, bind, Except.bind]
  exact hrest

/-- A mapping is read after a key, on the lines below it. -/
theorem readsAsNode_mapping (hne : entries ≠ []) {indent : Nat}
    (hreads : ∀ e ∈ entries, e.Reads (indent + 2))
    (hdistinct : entries.Pairwise BlockEntry.Differ) {voids : List (List Char)}
    (hvoids : ∀ line ∈ voids, isVoidLine line = true) :
    ReadsAsNode indent .key
      ('\n' :: (unlines voids ++ entries.flatMap fun e => pad (indent + 2) ++ e.chars))
      (.mapping none (entries.map BlockEntry.nodes)) := by
  intro fuel path k column keys c rest hfuel hc hindent _ hrest
  have hlength := length_flatMap_le (indent + 2) BlockEntry.chars entries
  rw [List.length_cons, List.length_append] at hfuel
  obtain ⟨fuel, rfl⟩ : ∃ f, fuel = f + 1 := ⟨fuel - 1, by omega⟩
  rw [List.cons_append, List.append_assoc, ← Line.chars.eq_def ⟨k, rest⟩,
    ← chars_firstLine] at hc
  have hle := hrest.le
  have hk : (Line.mk k rest).column < indent + 2 := by
    show k < indent + 2
    omega
  -- the mapping is indented, so that the line after it ends it
  have hfollows := hrest.of_lt hk .key
  have htoken := hc.before_voids hvoids (follows_entries hreads hfollows).token
  have hfirst :
      (firstLine (indent + 2) BlockEntry.chars ⟨k, rest⟩ entries).column = indent + 2 := by
    obtain ⟨e, entries, rfl⟩ := List.exists_cons_of_ne_nil hne
    rfl
  rw [hfirst] at htoken
  rw [blockNode]
  exact blockContent_mapping hne hreads hdistinct
    (show (indent : Int) < (indent + 2 : Nat) by omega) true (Or.inr hk) hfollows fuel path
    (by omega) htoken

/-- A mapping is read after a dash, its first entry on the same line. -/
theorem readsAsNode_mapping_item {e : BlockEntry} {indent : Nat}
    (hreads : ∀ f ∈ e :: entries, f.Reads (indent + 2))
    (hdistinct : (e :: entries).Pairwise BlockEntry.Differ) :
    ReadsAsNode indent .item
      (' ' :: (e.chars ++ entries.flatMap fun f => pad (indent + 2) ++ f.chars))
      (.mapping none ((e :: entries).map BlockEntry.nodes)) := by
  intro fuel path k column keys c rest hfuel hc hindent hlead hrest
  obtain ⟨rfl, rfl⟩ := hlead rfl
  have hlength := length_flatMap_le (indent + 2) BlockEntry.chars entries
  rw [List.length_cons, List.length_append] at hfuel
  obtain ⟨fuel, rfl⟩ : ∃ f, fuel = f + 1 := ⟨fuel - 1, by omega⟩
  rw [List.cons_append, List.append_assoc, ← Line.chars.eq_def ⟨k, rest⟩,
    ← chars_firstLine] at hc
  have hle := hrest.le
  have hk : (Line.mk k rest).column < indent + 2 := by
    show k < indent + 2
    omega
  have hfollows := hrest.of_lt hk .key
  have htoken := Cursor.At.toToken_pad (k := 1) hc (follows_entries hreads hfollows).token
  rw [blockNode]
  refine blockContent_mapping (List.cons_ne_nil e entries) hreads hdistinct
    (show (indent : Int) < (indent + 2 : Nat) by omega) _ (Or.inr hk) hfollows fuel path ?_ htoken
  rw [List.flatMap_cons, List.length_append]
  omega

end

/-! ## Entries with comments -/

namespace BlockEntry

/-- A plain scalar after a name, and void lines below it. -/
def ofScalar (name text : String) (voids : List String) : BlockEntry where
  name := name
  text := ' ' :: (text.toList ++ '\n' :: unlines (voids.map String.toList))
  node := .ofPlain text

/-- A mapping after a name, two columns further right than `column`, and void lines above its
    entries. -/
def ofMapping (name : String) (column : Nat) (voids : List String)
    (entries : List BlockEntry) : BlockEntry where
  name := name
  text := '\n' :: (unlines (voids.map String.toList) ++
    entries.flatMap fun e => pad (column + 2) ++ e.chars)
  node := .mapping none (entries.map nodes)

/-- The lines of a plain scalar. -/
theorem chars_ofScalar (column : Nat) (name text : String) (voids : List String) :
    pad column ++ (ofScalar name text voids).chars =
      unlines ((pad column ++ (name.toList ++ ':' :: ' ' :: text.toList)) ::
        voids.map String.toList) := by
  simp [chars, ofScalar, unlines]

/-- The lines of a mapping, and its entries. -/
theorem chars_ofMapping (column : Nat) (name : String) (voids : List String)
    (entries : List BlockEntry) :
    pad column ++ (ofMapping name column voids entries).chars =
      unlines ((pad column ++ (name.toList ++ [':'])) :: voids.map String.toList) ++
        entries.flatMap fun e => pad (column + 2) ++ e.chars := by
  simp [chars, ofMapping, unlines]

/-- Lines without a token. -/
private theorem forall_isVoidLine {voids : List String}
    (h : voids.all (isVoidLine ·.toList) = true) :
    ∀ line ∈ voids.map String.toList, isVoidLine line = true := by
  intro line hline
  obtain ⟨void, hvoid, rfl⟩ := List.mem_map.mp hline
  exact List.all_eq_true.mp h void hvoid

/-- An entry that is read, whose key is its name and which has a value. -/
structure IsEntry (column : Nat) (e : BlockEntry) : Prop extends e.Reads column where
  named : e.keyNode.toValue = some (.string e.name)
  value : e.node.toValue.isSome = true

/-- Entries with different names have different keys. -/
theorem pairwise_differ {column : Nat} {entries : List BlockEntry}
    (h : ∀ e ∈ entries, e.IsEntry column) (hdistinct : (entries.map name).Nodup) :
    entries.Pairwise Differ := by
  rw [List.Nodup, List.pairwise_map] at hdistinct
  refine hdistinct.imp_of_mem fun {e f} he hf hne => ?_
  rw [Differ, sameKeyNode, (h e he).named, (h f hf).named]
  exact beq_false_of_ne hne

/-- The values of entries. -/
theorem entryValues_nodes {column : Nat} {entries : List BlockEntry}
    (h : ∀ e ∈ entries, e.IsEntry column) :
    entryValues (entries.map nodes) =
      some (entries.map fun e => (.string e.name, e.node.toValue.getD .null)) := by
  induction entries with
  | nil => rfl
  | cons e entries ih =>
    have he := h e List.mem_cons_self
    obtain ⟨v, hv⟩ := Option.isSome_iff_exists.mp he.value
    rw [List.map_cons, nodes, entryValues, he.named, hv,
      ih fun f hf => h f (List.mem_cons_of_mem _ hf), List.map_cons, hv]
    rfl

variable {name text : String} {voids : List String}

/-- A plain scalar that has a value is an entry. -/
theorem isEntry_ofScalar (hname : isFieldName name = true) (htext : IsPlainScalar text.toList)
    (hvalue : (plainValue text).isSome = true)
    (hvoids : voids.all (isVoidLine ·.toList) = true) (column : Nat) :
    (ofScalar name text voids).IsEntry column where
  key := (isFieldName_spec hname).isKey
  blank _ := rfl
  node := htext.readsAsNode hvalue (forall_isVoidLine hvoids)
  named := (isFieldName_spec hname).toValue_eq
  value := by
    rw [ofScalar, toValue_ofPlain]
    exact hvalue

/-- A mapping of entries is an entry. -/
theorem isEntry_ofMapping {entries : List BlockEntry} (hname : isFieldName name = true)
    (hne : entries ≠ []) {column : Nat} (hentries : ∀ e ∈ entries, e.IsEntry (column + 2))
    (hdistinct : (entries.map BlockEntry.name).Nodup)
    (hvoids : voids.all (isVoidLine ·.toList) = true) :
    (ofMapping name column voids entries).IsEntry column where
  key := (isFieldName_spec hname).isKey
  blank _ := rfl
  node := readsAsNode_mapping hne (fun e he => (hentries e he).toReads)
    (pairwise_differ hentries hdistinct) (forall_isVoidLine hvoids)
  named := (isFieldName_spec hname).toValue_eq
  value := by
    rw [ofMapping, Node.toValue, entryValues_nodes hentries]
    rfl

end BlockEntry

/-! ## Brackets -/

/-- Brackets with nothing between them are read after an indicator. -/
private theorem readsAsNode_brackets {indent : Nat} {lead : Lead} {opening closing : Char}
    {n : Node} (hopening : opening = '[' ∨ opening = '{')
    (hread : ∀ {fuel : Nat} {path : NodePath} {c : Cursor} {column : Nat} {keys : Bool}
      {rest : List Char}, c.At column keys (opening :: closing :: '\n' :: rest) →
        ∃ c', inlineNode strictDialect (fuel + 1) path indent {} c = some (.ok (n, c')) ∧
          c'.At (column + 2) false ('\n' :: rest)) :
    ReadsAsNode indent lead [' ', opening, closing, '\n'] n := by
  intro fuel path k column keys c rest hfuel hc hindent _ hrest
  obtain ⟨fuel, rfl⟩ : ∃ f, fuel = f + 3 := ⟨fuel - 3, by simp at hfuel; omega⟩
  have hstart : StartsInline (opening :: closing :: '\n' :: (pad k ++ rest)) := by
    refine ⟨List.cons_ne_nil _ _, .cons ?_ _, ?_, ?_⟩
    · rcases hopening with rfl | rfl <;> decide
    · rintro d ⟨⟩
      rcases hopening with rfl | rfl <;> decide
    · rintro d tail ⟨⟩ hd
      rcases hopening with rfl | rfl <;> exact absurd hd (by decide)
  refine hstart.blockNode_eq hc (by omega) hrest.colon fun hc' => ?_
  obtain ⟨c', hinline, hat⟩ := hread hc'
  exact ⟨c', hinline, hat.before_newline hrest.token⟩

/-- A collection without parts is read back. -/
theorem readsBack_empty (indent : Nat) (lead : Lead) :
    ReadsBack indent lead (.sequence []) (writtenNode (.sequence [])) ∧
      ReadsBack indent lead (.mapping []) (writtenNode (.mapping [])) := by
  -- the bracket at the end is the first token after the one at the start
  have hclosing {c : Cursor} {column : Nat} {keys : Bool} {opening closing : Char}
      {rest : List Char} (hc : c.At column keys (opening :: closing :: '\n' :: rest))
      (hclosing : isBreak closing = false ∧ isBlank closing = false ∧ closing ≠ '#') :
      (((c.skip 1).allowKeys true).toToken true).At (column + 1) true
        (closing :: '\n' :: rest) := by
    have hnext := hc.skip_one true
    rw [hnext.toToken_eq (.cons hclosing _)]
    exact hnext
  constructor
  · rw [ReadsBack, body, writtenNode]
    refine readsAsNode_brackets (Or.inl rfl) fun {fuel path c column keys rest} hc => ?_
    have htoken := hclosing hc (by decide)
    refine ⟨_, ?_, htoken.skip_one false⟩
    rw [inlineNode, flowSequence]
    simp [Cursor.atChar, hc.rest, htoken.rest, Cursor.openAnchor]
    rfl
  · rw [ReadsBack, body, writtenNode]
    refine readsAsNode_brackets (Or.inr rfl) fun {fuel path c column keys rest} hc => ?_
    have htoken := hclosing hc (by decide)
    refine ⟨_, ?_, htoken.skip_one false⟩
    rw [inlineNode, flowMapping]
    simp [Cursor.atChar, hc.rest, htoken.rest, Cursor.openAnchor]
    rfl

/-! ## Written collections -/

/-- The entry that is written for a key and a value. -/
def writtenEntry (column : Nat) (e : Value × Value) : BlockEntry where
  name := keyName e.1
  key := (simpleKey? e.1).getD []
  plain := isPlainKey e.1
  text := body column .key e.2
  node := writtenNode e.2

/-- A value after a key starts with a blank or a line end. -/
theorem atBlank_body (indent : Nat) (v : Value) (rest : List Char) :
    atBlank (body indent .key v ++ rest) = true := by
  rcases v with _ | _ | _ | _ | _ | (_ | ⟨v, vs⟩) | (_ | ⟨e, es⟩) | _ <;>
    simp [body, atBlank, isBlank, isBreak]

variable {es : List (Value × Value)}

/-- An entry whose key fits on a line is written as it is read. -/
theorem entry_eq_written {e : Value × Value} (hkey : IsLineKey e.1) (column : Nat) :
    entry column e = (writtenEntry column e).chars := by
  obtain ⟨-, cs, hcs, -⟩ := hkey.isKey
  rw [entry, hcs, BlockEntry.chars, writtenEntry, hcs]
  rfl

/-- Entries whose keys fit on a line are written one after the other. -/
theorem entries_eq_written (hkeys : ∀ e ∈ es, IsLineKey e.1) (column : Nat) :
    entries column es =
      (es.map (writtenEntry column)).flatMap fun e => pad column ++ e.chars := by
  rw [entries_eq_flatMap, List.flatMap_map]
  exact List.flatMap_congr fun e he =>
    congrArg (pad column ++ ·) (entry_eq_written (hkeys e he) column)

/-- The nodes of entries whose keys fit on a line. -/
theorem writtenEntries_eq (hkeys : ∀ e ∈ es, IsLineKey e.1) (column : Nat) :
    writtenEntries es = (es.map (writtenEntry column)).map BlockEntry.nodes := by
  induction es with
  | nil => rfl
  | cons e es ih =>
    obtain ⟨hnode, -⟩ := (hkeys e List.mem_cons_self).isKey
    rw [writtenEntries, hnode, ih fun f hf => hkeys f (List.mem_cons_of_mem e hf)]
    rfl

/-- An entry is read when its value is. -/
theorem reads_writtenEntry {e : Value × Value} {column : Nat} (hkey : IsLineKey e.1)
    (hread : ReadsBack column .key e.2 (writtenNode e.2)) :
    (writtenEntry column e).Reads column := by
  obtain ⟨-, cs, hcs, hkey⟩ := hkey.isKey
  refine ⟨?_, atBlank_body column e.2, hread⟩
  rw [writtenEntry, hcs]
  exact hkey

/-- Entries with different keys differ. -/
theorem pairwise_writtenEntry (hkeys : ∀ e ∈ es, IsLineKey e.1)
    (hdistinct : es.Pairwise fun e f => e.1.sameKey f.1 = false) (column : Nat) :
    (es.map (writtenEntry column)).Pairwise BlockEntry.Differ := by
  rw [List.pairwise_map]
  refine hdistinct.imp_of_mem fun {e f} he hf hne => ?_
  have hnode {e : Value × Value} (he : e ∈ es) :
      (writtenEntry column e).keyNode = writtenNode e.1 := ((hkeys e he).isKey.1).symm
  rw [BlockEntry.Differ, hnode he, hnode hf, (hkeys e he).sameKeyNode_eq (hkeys f hf), hne]

/-- A mapping whose keys fit on a line is read back, below its key or after a dash. -/
theorem readsBack_mapping (hne : es ≠ []) (hkeys : ∀ e ∈ es, IsLineKey e.1)
    (hdistinct : es.Pairwise fun e f => e.1.sameKey f.1 = false) {indent : Nat} (lead : Lead)
    (hreads : ∀ e ∈ es, ReadsBack (indent + 2) .key e.2 (writtenNode e.2)) :
    ReadsBack indent lead (.mapping es) (writtenNode (.mapping es)) := by
  have hentries := entries_eq_written hkeys (indent + 2)
  have hreads' : ∀ e ∈ es.map (writtenEntry (indent + 2)), e.Reads (indent + 2) := by
    intro e he
    obtain ⟨f, hf, rfl⟩ := List.mem_map.mp he
    exact reads_writtenEntry (hkeys f hf) (hreads f hf)
  have hdiffer := pairwise_writtenEntry hkeys hdistinct (indent + 2)
  rw [ReadsBack, writtenNode, writtenEntries_eq hkeys (indent + 2)]
  obtain ⟨e, es, rfl⟩ := List.exists_cons_of_ne_nil hne
  cases lead with
  | key =>
    have hbody : body indent .key (.mapping (e :: es)) =
        '\n' :: entries (indent + 2) (e :: es) := by
      rw [body]
    rw [hbody, hentries]
    exact readsAsNode_mapping (List.cons_ne_nil _ _) hreads' hdiffer forall_isVoidLine_nil
  | item =>
    -- the first entry stands on the line of the dash, without indentation
    have hfirst := entry_eq_written (hkeys e List.mem_cons_self) (indent + 2)
    have hothers := entries_eq_written
      (fun f hf => hkeys f (List.mem_cons_of_mem e hf)) (indent + 2)
    have hbody : body indent .item (.mapping (e :: es)) =
        ' ' :: (entry (indent + 2) e ++ entries (indent + 2) es) := by
      rw [body]
    rw [hbody, hfirst, hothers]
    exact readsAsNode_mapping_item hreads' hdiffer

/-! ## Records -/

/-- The nodes of a row. -/
def entryNode (f : String × Value) : Node × Node :=
  (.ofPlain f.1, writtenNode f.2)

/-- The node of a mapping with names as keys. -/
theorem writtenNode_record {fields : List (String × Value)}
    (hnames : ∀ f ∈ fields, IsFieldName f.1) :
    writtenNode (.record fields) = .mapping none (fields.map entryNode) := by
  have hentries : writtenEntries (fields.map fun f => (.string f.1, f.2)) =
      fields.map entryNode := by
    induction fields with
    | nil => rfl
    | cons f fields ih =>
      rw [List.map_cons, writtenEntries, (hnames f List.mem_cons_self).node,
        ih fun g hg => hnames g (List.mem_cons_of_mem f hg)]
      rfl
  exact congrArg (Node.mapping none) hentries

/-- The keys of a record are its names. -/
theorem keys_record {fields : List (String × Value)} (hnames : ∀ f ∈ fields, IsFieldName f.1)
    (hdistinct : (fields.map Prod.fst).Nodup) :
    (∀ e ∈ fields.map fun f => (Value.string f.1, f.2), IsLineKey e.1) ∧
      (fields.map fun f => (Value.string f.1, f.2)).Pairwise
        fun e f => e.1.sameKey f.1 = false := by
  constructor
  · intro e he
    obtain ⟨f, hf, rfl⟩ := List.mem_map.mp he
    exact (hnames f hf).isLineKey
  · rw [List.Nodup, List.pairwise_map] at hdistinct
    rw [List.pairwise_map]
    exact hdistinct.imp fun hne => beq_false_of_ne hne

end RunPlan.Yaml
