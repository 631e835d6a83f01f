import RunPlan.EnvFile
import RunPlan.Proofs.Environment
import RunPlan.Proofs.Text

/-!
# Env files are read back

`EnvFile.render` writes one line per variable and `EnvFile.parse` reads lines. A value
between double quotes may hold any character but one: a line feed ends the line, quoted
or not. So an environment comes back from its file exactly when no value holds a line
feed and its names are names to the reader (`parse_render_iff_isName`).

## Key results

- `unescape_escape`: the escapes between double quotes are undone
- `unquote_quoteValue`: quoting is undone, whatever the value holds
- `parseLine_renderLine`, `parseLine_export`: the line of a variable is read back
- `parse_eq_filterMap`, `mem_of_mem_parse`: what can be read from a text at all
- `parse_render_iff_isName`: the exact condition for a file to be read back
-/

namespace RunPlan.EnvFile

open Text

/-- A name that the reader takes for a name where it stands in front of a `=`. -/
structure IsName (name : List Char) : Prop where
  ne_nil : name ≠ []
  head_ne_hash : name.head? ≠ some '#'
  head_not_white : ∀ c ∈ name.head?, isWhitespace c = false
  last_not_white : ∀ c ∈ name.getLast?, isWhitespace c = false
  no_equals : '=' ∉ name
  no_feed : '\n' ∉ name
  no_export : ¬ "export ".toList <+: name

instance (name : List Char) : Decidable (IsName name) :=
  decidable_of_iff
    (name ≠ [] ∧ name.head? ≠ some '#' ∧ name.head?.any isWhitespace = false ∧
      name.getLast?.any isWhitespace = false ∧ '=' ∉ name ∧ '\n' ∉ name ∧
      ¬ "export ".toList <+: name) (by
    rw [Option.any_eq_false, Option.any_eq_false]
    exact ⟨fun ⟨h₁, h₂, h₃, h₄, h₅, h₆, h₇⟩ => ⟨h₁, h₂, h₃, h₄, h₅, h₆, h₇⟩,
      fun ⟨h₁, h₂, h₃, h₄, h₅, h₆, h₇⟩ => ⟨h₁, h₂, h₃, h₄, h₅, h₆, h₇⟩⟩)

/-! ## Values -/

/-- Any character but a backslash stands for itself. -/
private theorem unescape_cons {c : Char} (h : c ≠ '\\') (cs : List Char) :
    unescape (c :: cs) = c :: unescape cs := by
  rw [unescape]
  · rintro _ rfl
    exact absurd rfl h
  · rintro _ rfl
    exact absurd rfl h

/-- Escapes are undone. -/
theorem unescape_escape (value : List Char) :
    unescape (value.flatMap escapeChar) = value := by
  induction value with
  | nil => rfl
  | cons c cs ih =>
    rw [List.flatMap_cons, escapeChar]
    by_cases hquote : c = '"'
    · simp [hquote, unescape, ih]
    · by_cases hback : c = '\\'
      · simp [hback, unescape, ih]
      · simp [hquote, hback, unescape_cons hback, ih]

/-- A text with no quote in front has nothing between quotes. -/
private theorem between?_eq_none {quote : Char} {value : List Char}
    (h : value.head? ≠ some quote) : between? quote value = none := by
  match value with
  | [] => rfl
  | [_] => rfl
  | first :: second :: rest =>
    have hfirst : first ≠ quote := by simpa using h
    simp [between?, hfirst]

/-- What stands between two quotes. -/
private theorem between?_quoted (quote : Char) (inner : List Char) :
    between? quote (quote :: (inner ++ [quote])) = some inner := by
  cases inner with
  | nil => simp [between?]
  | cons c cs =>
    have hlast : (c :: (cs ++ [quote])).getLast? = some quote := by
      rw [← List.cons_append, List.getLast?_concat]
    have hfront : (c :: (cs ++ [quote])).dropLast = c :: cs := by
      rw [← List.cons_append, List.dropLast_concat]
    simp [between?, hlast, hfront]

/-- Quoting is undone. -/
theorem unquote_quoteValue (value : List Char) : unquote (quoteValue value) = value := by
  rw [quoteValue]
  by_cases hquotes : value.any needsQuotes = true
  · have hsingle : between? '\'' ('"' :: (value.flatMap escapeChar ++ ['"'])) = none :=
      between?_eq_none (by simp)
    rw [if_pos hquotes, List.append_assoc, List.singleton_append, unquote, hsingle]
    simp only [between?_quoted, unescape_escape]
  · have hplain : ∀ c ∈ value, needsQuotes c = false := by simpa using hquotes
    have hhead (quote : Char) (hquote : needsQuotes quote = true) :
        value.head? ≠ some quote := by
      intro hmem
      have := hplain quote (List.mem_of_mem_head? hmem)
      rw [hquote] at this
      exact Bool.noConfusion this
    rw [if_neg hquotes, unquote, between?_eq_none (hhead '\'' rfl),
      between?_eq_none (hhead '"' rfl)]

/-- What stands between two quotes keeps a part of the characters. -/
private theorem mem_of_between? {c quote : Char} {value inner : List Char}
    (h : between? quote value = some inner) (hc : c ∈ inner) : c ∈ value := by
  match value with
  | [] => simp [between?] at h
  | [_] => simp [between?] at h
  | first :: second :: rest =>
    simp only [between?] at h
    split at h
    · obtain rfl : (second :: rest).dropLast = inner := by simpa using h
      exact List.mem_cons_of_mem _ (List.dropLast_subset _ hc)
    · simp at h

/-- Undoing the escapes keeps a part of the characters. -/
private theorem mem_of_mem_unescape {c : Char} {cs : List Char} (h : c ∈ unescape cs) :
    c ∈ cs := by
  induction cs using unescape.induct with
  | case1 cs ih =>
    rw [unescape, List.mem_cons] at h
    exact List.mem_cons_of_mem _ (List.mem_cons.mpr (h.imp_right ih))
  | case2 cs ih =>
    rw [unescape, List.mem_cons] at h
    exact List.mem_cons_of_mem _ (List.mem_cons.mpr (h.imp_right ih))
  | case3 d cs hquote hback ih =>
    rw [unescape.eq_3 d cs hquote hback, List.mem_cons] at h
    exact List.mem_cons.mpr (h.imp_right ih)
  | case4 => exact h

/-- Unquoting keeps a part of the characters. -/
private theorem mem_of_mem_unquote {c : Char} {value : List Char} (h : c ∈ unquote value) :
    c ∈ value := by
  rw [unquote] at h
  split at h
  · exact mem_of_between? ‹_› h
  · split at h
    · exact mem_of_between? ‹_› (mem_of_mem_unescape h)
    · exact h

/-- White space that is not quoted away would need quotes. -/
private theorem not_white_of_plain {value : List Char}
    (h : ¬ value.any needsQuotes = true) : ∀ c ∈ value, isWhitespace c = false := by
  intro c hc
  have hplain : ∀ c ∈ value, needsQuotes c = false := by simpa using h
  have := hplain c hc
  simp only [needsQuotes, Bool.or_eq_false_iff] at this
  exact this.1.1.1.1

/-- A quoted value does not start with white space. -/
theorem head_quoteValue (value : List Char) :
    ∀ c ∈ (quoteValue value).head?, isWhitespace c = false := by
  intro c hc
  rw [quoteValue] at hc
  split at hc
  · obtain rfl : '"' = c := by simpa using hc
    rfl
  · exact not_white_of_plain ‹_› c (List.mem_of_mem_head? hc)

/-- A quoted value does not end with white space. -/
theorem last_quoteValue (value : List Char) :
    ∀ c ∈ (quoteValue value).getLast?, isWhitespace c = false := by
  intro c hc
  rw [quoteValue] at hc
  split at hc
  · rw [List.getLast?_concat] at hc
    obtain rfl : '"' = c := by simpa using hc
    rfl
  · exact not_white_of_plain ‹_› c (List.mem_of_getLast? hc)

/-- Quoting puts in no line feeds. -/
theorem feed_mem_quoteValue_iff (value : List Char) :
    '\n' ∈ quoteValue value ↔ '\n' ∈ value := by
  rw [quoteValue]
  split
  · have hescape (c : Char) : '\n' ∈ escapeChar c ↔ '\n' = c := by
      rw [escapeChar]
      split <;> simp
    simp only [List.cons_append, List.nil_append, List.mem_cons, List.mem_append,
      List.mem_flatMap, hescape, List.not_mem_nil, or_false]
    simp
  · exact Iff.rfl

/-! ## Lines -/

/-- The line of a variable starts with its name. -/
private theorem head_renderLine {name : String} (h : name.toList ≠ []) (value : String) :
    (renderLine name value).head? = name.toList.head? := by
  rw [renderLine, List.append_assoc, List.head?_append_of_ne_nil _ h]

/-- The line of a variable does not end with white space. -/
private theorem last_renderLine (name value : String) :
    ∀ c ∈ (renderLine name value).getLast?, isWhitespace c = false := by
  intro c hc
  rw [renderLine, List.getLast?_append] at hc
  cases hlast : (quoteValue value.toList).getLast? with
  | none =>
    obtain rfl : '=' = c := by simpa [hlast] using hc
    rfl
  | some last =>
    obtain rfl : last = c := by simpa [hlast] using hc
    exact last_quoteValue _ _ hlast

/-- The line of a variable has no white space to trim. -/
private theorem trim_renderLine {name : String} (hne : name.toList ≠ [])
    (hhead : ∀ c ∈ name.toList.head?, isWhitespace c = false) (value : String) :
    trim (renderLine name value) = renderLine name value := by
  apply trim_eq_self
  · rw [head_renderLine hne]
    exact hhead
  · exact last_renderLine name value

/-- When a line assigns a value to a name. -/
theorem parseLine_eq_some_iff {line : List Char} {name value : String} :
    parseLine line = some (name, value) ↔
      ¬(trim line = [] ∨ (trim line).head? = some '#') ∧ ∃ before after,
        splitOnce '=' ((dropPrefix? "export ".toList (trim line)).getD (trim line)) =
          some (before, after) ∧
        trim before ≠ [] ∧ String.ofList (trim before) = name ∧
          String.ofList (unquote (trim after)) = value := by
  simp only [parseLine]
  constructor
  · intro h
    split at h
    · cases h
    rename_i hstart
    split at h
    · cases h
    rename_i before after hsplit
    split at h
    · cases h
    rename_i hne
    obtain ⟨hname, hvalue⟩ := Prod.mk.inj (Option.some.inj h)
    exact ⟨hstart, before, after, hsplit, hne, hname, hvalue⟩
  · rintro ⟨hstart, before, after, hsplit, hne, rfl, rfl⟩
    simp only [if_neg hstart, hsplit, if_neg hne]

/-- A carriage return at the end of a line makes no difference. -/
theorem parseLine_dropReturn (line : List Char) : parseLine (dropReturn line) = parseLine line := by
  unfold parseLine
  rw [trim_dropReturn]

/-- A line that comes down to the line of a variable is read as that variable. -/
private theorem parseLine_of_eq {line : List Char} {name : String} (h : IsName name.toList)
    (value : String) (htrim : trim line = line) (hstart : ¬(line = [] ∨ line.head? = some '#'))
    (hline : (dropPrefix? "export ".toList line).getD line = renderLine name value) :
    parseLine line = some (name, value) := by
  have hsplit : splitOnce '=' (renderLine name value) =
      some (name.toList, quoteValue value.toList) := by
    rw [renderLine, List.append_assoc]
    exact splitOnce_append h.no_equals _
  have hname : trim name.toList = name.toList :=
    trim_eq_self h.head_not_white h.last_not_white
  have hvalue : trim (quoteValue value.toList) = quoteValue value.toList :=
    trim_eq_self (head_quoteValue _) (last_quoteValue _)
  rw [parseLine_eq_some_iff, htrim, hline]
  refine ⟨hstart, name.toList, quoteValue value.toList, hsplit, ?_, ?_, ?_⟩
  · rw [hname]
    exact h.ne_nil
  · rw [hname, String.ofList_toList]
  · rw [hvalue, unquote_quoteValue, String.ofList_toList]

/-- The line of a variable is read back. -/
theorem parseLine_renderLine {name : String} (h : IsName name.toList) (value : String) :
    parseLine (renderLine name value) = some (name, value) := by
  apply parseLine_of_eq h value (trim_renderLine h.ne_nil h.head_not_white value)
  · rw [head_renderLine h.ne_nil]
    simp [renderLine, h.head_ne_hash]
  · have hexport : dropPrefix? "export ".toList (renderLine name value) = none := by
      rw [renderLine, List.append_assoc]
      exact dropPrefix?_append_eq_none (by decide) h.no_export
    rw [hexport, Option.getD_none]

/-- The line of a variable is read back exactly when its name is a name to the reader. -/
theorem parseLine_renderLine_iff {name : String} (hfeed : '\n' ∉ name.toList) (value : String) :
    parseLine (renderLine name value) = some (name, value) ↔ IsName name.toList := by
  refine ⟨fun h => ?_, fun h => parseLine_renderLine h value⟩
  obtain ⟨hstart, before, after, hsplit, hne, hname, -⟩ := parseLine_eq_some_iff.mp h
  have htrimmed : trim before = name.toList := by rw [← hname, String.toList_ofList]
  have hnil : name.toList ≠ [] := htrimmed ▸ hne
  have hhead : ∀ c ∈ name.toList.head?, isWhitespace c = false := htrimmed ▸ head_trim before
  have hequals : '=' ∉ name.toList := by
    rw [← htrimmed]
    exact fun hmem => (splitOnce_eq_some_iff.mp hsplit).1 (mem_of_mem_trim hmem)
  rw [trim_renderLine hnil hhead, head_renderLine hnil] at hstart
  rw [trim_renderLine hnil hhead] at hsplit
  refine ⟨hnil, fun hhash => hstart (Or.inr hhash), hhead, htrimmed ▸ last_trim before, hequals,
    hfeed, fun ⟨rest, hrest⟩ => ?_⟩
  -- a name that starts with `export ` would be read without it
  have hline : renderLine name value =
      "export ".toList ++ (rest ++ '=' :: quoteValue value.toList) := by
    rw [renderLine, ← hrest, List.append_assoc, List.append_assoc]
    rfl
  have hafter : '=' ∉ rest := fun hmem => hequals (hrest ▸ List.mem_append_right _ hmem)
  rw [dropPrefix?_eq_some_iff.mpr hline, Option.getD_some, splitOnce_append hafter] at hsplit
  obtain ⟨rfl, -⟩ := Prod.mk.inj (Option.some.inj hsplit)
  have hlength := length_trim_le rest
  rw [htrimmed, ← hrest, List.length_append] at hlength
  exact absurd hlength (by simp)

/-- The line of a variable is read back after the word `export`. -/
theorem parseLine_export {name : String} (h : IsName name.toList) (value : String) :
    parseLine ("export ".toList ++ renderLine name value) = some (name, value) := by
  apply parseLine_of_eq h value
  · apply trim_eq_self
    · intro c hc
      obtain rfl : 'e' = c := by simpa using hc
      decide
    · -- the line ends as the line of the variable does
      have hne : renderLine name value ≠ [] := by simp [renderLine]
      rw [List.getLast?_append_of_ne_nil _ hne]
      exact last_renderLine name value
  · simp
  · rw [dropPrefix?_eq_some_iff.mpr rfl, Option.getD_some]

/-- What is read from a line is a part of its characters. -/
private theorem mem_of_parseLine {line : List Char} {name value : String} {c : Char}
    (h : parseLine line = some (name, value)) (hc : c ∈ name.toList ∨ c ∈ value.toList) :
    c ∈ line := by
  obtain ⟨-, before, after, hsplit, -, rfl, rfl⟩ := parseLine_eq_some_iff.mp h
  rw [String.toList_ofList, String.toList_ofList] at hc
  -- every step keeps a part of the characters
  have hrest : c ∈ (dropPrefix? "export ".toList (trim line)).getD (trim line) := by
    rw [(splitOnce_eq_some_iff.mp hsplit).2, List.mem_append, List.mem_cons]
    cases hc with
    | inl hname => exact Or.inl (mem_of_mem_trim hname)
    | inr hvalue => exact Or.inr (Or.inr (mem_of_mem_trim (mem_of_mem_unquote hvalue)))
  cases hexport : dropPrefix? "export ".toList (trim line) with
  | none =>
    rw [hexport, Option.getD_none] at hrest
    exact mem_of_mem_trim hrest
  | some rest =>
    rw [hexport, Option.getD_some] at hrest
    exact mem_of_mem_trim (mem_of_dropPrefix? hexport hrest)

/-! ## Files -/

/-- A text is read line by line. -/
theorem parse_eq_filterMap (text : String) :
    parse text = (splitAll '\n' text.toList).filterMap parseLine := by
  have hempty : parseLine [] = none := rfl
  have hreturns (lines : List (List Char)) :
      (lines.map dropReturn).filterMap parseLine = lines.filterMap parseLine := by
    rw [List.filterMap_map]
    exact List.filterMap_congr fun line _ => parseLine_dropReturn line
  simp only [parse, splitLines]
  -- the last piece counts unless it is empty, and then it holds no variable
  cases hpieces : (splitAll '\n' text.toList).reverse with
  | nil => exact absurd (List.reverse_eq_nil_iff.mp hpieces) (splitAll_ne_nil _ _)
  | cons last before =>
    have hall : splitAll '\n' text.toList = before.reverse ++ [last] := by
      rw [← List.reverse_reverse (splitAll _ _), hpieces, List.reverse_cons]
    dsimp only
    rw [hall, List.filterMap_append]
    split
    · rename_i hlast
      rw [hreturns, hlast, List.filterMap_cons_none hempty, List.filterMap_nil, List.append_nil]
    · rw [List.filterMap_append, hreturns]

/-- What is read from a text is a part of its characters, line feeds apart. -/
theorem mem_of_mem_parse {text name value : String} {c : Char} (h : (name, value) ∈ parse text)
    (hc : c ∈ name.toList ∨ c ∈ value.toList) : c ∈ text.toList ∧ c ≠ '\n' := by
  rw [parse_eq_filterMap] at h
  obtain ⟨line, hline, hparse⟩ := List.mem_filterMap.mp h
  have hmem := mem_of_parseLine hparse hc
  have hfeed : c ≠ '\n' := fun heq => separator_notMem_splitAll hline (heq ▸ hmem)
  exact ⟨(mem_splitAll_iff hfeed).mp ⟨line, hline, hmem⟩, hfeed⟩

/-- No name and no value that was read holds a line feed. -/
theorem feed_notMem_of_mem_parse {text name value : String} (h : (name, value) ∈ parse text) :
    '\n' ∉ name.toList ∧ '\n' ∉ value.toList :=
  ⟨fun hname => (mem_of_mem_parse h (Or.inl hname)).2 rfl,
    fun hvalue => (mem_of_mem_parse h (Or.inr hvalue)).2 rfl⟩

/-- The variable on a line, a carriage return at its end being part of the line break. -/
def readLine (line : List Char) : Option (String × String) :=
  parseLine (dropReturn line)

/-- The text of lines is read line by line. -/
theorem parse_unlines {lines : List (List Char)} (h : ∀ line ∈ lines, '\n' ∉ line) :
    parse (String.ofList (unlines lines)) = lines.filterMap readLine := by
  rw [parse, String.toList_ofList, splitLines_unlines h, List.filterMap_map]
  rfl

/-- A comment holds no variable. -/
theorem readLine_comment (cs : List Char) : readLine ('#' :: cs) = none := by
  obtain ⟨line, hline⟩ := exists_dropReturn_cons (c := '#') (by decide) cs
  obtain ⟨rest, hrest⟩ := exists_trim_cons (c := '#') (by decide) line
  rw [readLine, hline, parseLine, hrest]
  exact if_pos (Or.inr rfl)

/-- The lines of variables, with the word `export` in front or not. -/
def renderedLines (exports : Bool) (env : Environment) : List (List Char) :=
  env.map fun pair =>
    (if exports then "export ".toList else []) ++ renderLine pair.1 pair.2

/-- Lines hold no line feeds when no name and no value does. -/
theorem feed_notMem_renderedLines {env : Environment} (hnames : ∀ pair ∈ env, '\n' ∉ pair.1.toList)
    (hvalues : ∀ pair ∈ env, '\n' ∉ pair.2.toList) (exports : Bool) :
    ∀ line ∈ renderedLines exports env, '\n' ∉ line := by
  intro line hline
  obtain ⟨pair, hpair, rfl⟩ := List.mem_map.mp hline
  have hvalue := hvalues pair hpair
  rw [← feed_mem_quoteValue_iff] at hvalue
  have hrender : '\n' ∉ renderLine pair.1 pair.2 := by
    simp [renderLine, hnames pair hpair, hvalue]
  cases exports with
  | false =>
    rw [if_neg Bool.false_ne_true, List.nil_append]
    exact hrender
  | true =>
    rw [if_pos rfl, List.mem_append, not_or]
    exact ⟨by decide, hrender⟩

/-- The lines of variables do not end in a carriage return. -/
private theorem map_dropReturn_renderedLines (exports : Bool) (env : Environment) :
    (renderedLines exports env).map dropReturn = renderedLines exports env := by
  rw [renderedLines, List.map_map]
  apply List.map_congr_left
  intro pair _
  have hne : renderLine pair.1 pair.2 ≠ [] := by simp [renderLine]
  apply dropReturn_eq_self
  rw [List.getLast?_append_of_ne_nil _ hne]
  intro hlast
  exact absurd (last_renderLine pair.1 pair.2 _ hlast) (by decide)

/-- A list is left by a choice of its members exactly when the choice keeps each of them. -/
private theorem filterMap_eq_self_iff {α : Type} {f : α → Option α} {l : List α} :
    l.filterMap f = l ↔ ∀ a ∈ l, f a = some a := by
  constructor
  · intro h
    have hsome : ∀ a ∈ l, (f a).isSome = true :=
      List.filterMap_length_eq_length.mp (congrArg List.length h)
    induction l with
    | nil => exact List.forall_mem_nil _
    | cons a l ih =>
      obtain ⟨b, hb⟩ := Option.isSome_iff_exists.mp (hsome a List.mem_cons_self)
      rw [List.filterMap_cons_some hb] at h
      obtain ⟨rfl, hrest⟩ := List.cons.inj h
      exact List.forall_mem_cons.mpr
        ⟨hb, ih hrest fun c hc => hsome c (List.mem_cons_of_mem _ hc)⟩
  · intro h
    rw [List.filterMap_congr h, List.filterMap_some]

/-- The lines of variables are read back. -/
theorem filterMap_renderedLines {env : Environment} (hnames : ∀ pair ∈ env, IsName pair.1.toList)
    (exports : Bool) :
    (renderedLines exports env).filterMap readLine = env := by
  rw [renderedLines, List.filterMap_map, filterMap_eq_self_iff]
  intro pair hpair
  rw [Function.comp_apply, readLine, parseLine_dropReturn]
  cases exports with
  | false =>
    rw [if_neg Bool.false_ne_true, List.nil_append]
    exact parseLine_renderLine (hnames pair hpair) pair.2
  | true =>
    rw [if_pos rfl]
    exact parseLine_export (hnames pair hpair) pair.2

/-- The text of an environment is that of its lines. -/
theorem render_eq (env : Environment) :
    render env = String.ofList (unlines (renderedLines false env)) := rfl

/-- The word `export` is put in front of every line. -/
theorem renderExports_eq {env : Environment} (hnames : ∀ pair ∈ env, IsName pair.1.toList)
    (hvalues : ∀ pair ∈ env, '\n' ∉ pair.2.toList) :
    renderExports env = String.ofList (unlines (renderedLines true env)) := by
  have hlines : splitLines (render env).toList = renderedLines false env := by
    rw [render_eq, String.toList_ofList,
      splitLines_unlines (feed_notMem_renderedLines (fun pair hpair => (hnames pair hpair).no_feed)
        hvalues false), map_dropReturn_renderedLines]
  rw [renderExports, hlines]
  simp [renderedLines, Function.comp_def]

/-- A file is read back exactly when every name is a name to the reader and no value holds a line
    feed. -/
theorem parse_render_iff_isName (env : Environment) :
    parse (render env) = env ↔
      ∀ pair ∈ env, IsName pair.1.toList ∧ '\n' ∉ pair.2.toList := by
  have hlines (hfeeds : ∀ pair ∈ env, '\n' ∉ pair.1.toList ∧ '\n' ∉ pair.2.toList) :
      parse (render env) = env.filterMap fun pair => parseLine (renderLine pair.1 pair.2) := by
    have hrendered := feed_notMem_renderedLines (fun pair hpair => (hfeeds pair hpair).1)
      (fun pair hpair => (hfeeds pair hpair).2) false
    rw [render_eq, parse_unlines hrendered, renderedLines, List.filterMap_map]
    exact List.filterMap_congr fun pair _ => parseLine_dropReturn _
  constructor
  · intro h pair hpair
    have hfeeds : ∀ pair ∈ env, '\n' ∉ pair.1.toList ∧ '\n' ∉ pair.2.toList :=
      fun pair hpair => feed_notMem_of_mem_parse (h.symm ▸ hpair : (pair.1, pair.2) ∈ _)
    rw [hlines hfeeds] at h
    exact ⟨(parseLine_renderLine_iff (hfeeds pair hpair).1 pair.2).mp
      (filterMap_eq_self_iff.mp h pair hpair), (hfeeds pair hpair).2⟩
  · intro h
    rw [hlines fun pair hpair => ⟨(h pair hpair).1.no_feed, (h pair hpair).2⟩]
    exact filterMap_eq_self_iff.mpr fun pair hpair => parseLine_renderLine (h pair hpair).1 pair.2

/-- A file with names that the reader takes is read back exactly when no value holds a line feed. -/
theorem parse_render_iff {env : Environment} (hnames : ∀ pair ∈ env, IsName pair.1.toList) :
    parse (render env) = env ↔ ∀ pair ∈ env, '\n' ∉ pair.2.toList := by
  rw [parse_render_iff_isName]
  exact forall₂_congr fun pair hpair => and_iff_right (hnames pair hpair)

/-- The file of a map of variables is read back as its pairs in the order of their names, whatever
    the values hold, except a line feed. Names must be names to the reader, and nothing else
    can be read back. -/
theorem parse_render_ofPairs (pairs : List (String × String)) :
    (Environment.ofPairs pairs).IsMapOf pairs ∧
      (parse (render (Environment.ofPairs pairs)) = Environment.ofPairs pairs ↔
        ∀ pair ∈ Environment.ofPairs pairs, IsName pair.1.toList ∧ '\n' ∉ pair.2.toList) :=
  ⟨Environment.isMapOf_ofPairs pairs, parse_render_iff_isName _⟩

/-- Quotes, backslashes and white space of all kinds are kept. -/
example :
    let env : Environment := [("A", ""), ("B", "\\\\\""), ("C", "'x'\r"), ("D", "\u2028# =")]
    parse (render env) = env := by
  decide

end RunPlan.EnvFile
