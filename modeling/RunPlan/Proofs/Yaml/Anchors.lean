import RunPlan.Proofs.Yaml.Remainder

/-!
# Nodes that are known by name

Reading a node only adds to the named nodes: it leaves those from before as they are, and
all that it adds are complete (`Cursor.Moves`). Apart from aliases, nothing depends on them
(`Cursor.withAnchors`).

## Key results

- `Cursor.Moves.close`: a collection names itself after what is named in it
- `scanProperties_withAnchors`: properties do not depend on what is known by name
-/

namespace RunPlan.Yaml

variable {c c' c₀ : Cursor} {l l' new more : Anchors} {props : Props} {n : Node}

/-- The same place, with other nodes known by name. -/
def Cursor.withAnchors (c : Cursor) (l : Anchors) : Cursor :=
  { c with anchors := l }

namespace Cursor

@[simp] theorem withAnchors_self (c : Cursor) : c.withAnchors c.anchors = c := rfl

@[simp] theorem withAnchors_rest : (c.withAnchors l).rest = c.rest := rfl

@[simp] theorem withAnchors_pos : (c.withAnchors l).pos = c.pos := rfl

@[simp] theorem withAnchors_anchors : (c.withAnchors l).anchors = l := rfl

@[simp] theorem withAnchors_handles : (c.withAnchors l).handles = c.handles := rfl

@[simp] theorem withAnchors_toToken (flow : Bool) :
    (c.withAnchors l).toToken flow = (c.toToken flow).withAnchors l := rfl

@[simp] theorem withAnchors_atChar (mark : Char) :
    (c.withAnchors l).atChar mark = c.atChar mark := rfl

@[simp] theorem withAnchors_atProperty : (c.withAnchors l).atProperty = c.atProperty := rfl

end Cursor

/-! ## Names -/

/-- Every complete node that a list names is named by another list, too. -/
def Resolves (l l' : Anchors) : Prop :=
  ∀ name n, l.lookup name = some (some n) → l'.lookup name = some (some n)

theorem Resolves.refl (l : Anchors) : Resolves l l :=
  fun _ _ h => h

/-- Nodes that are named later come first for both lists. -/
theorem Resolves.append (h : Resolves l l') (new : Anchors) :
    Resolves (new ++ l) (new ++ l') := by
  intro name n hname
  rw [List.lookup_append] at hname ⊢
  cases hnew : new.lookup name with
  | none =>
    rw [hnew] at hname
    exact h name n hname
  | some target =>
    rw [hnew] at hname
    exact hname

/-- The name of a node that is being read. -/
def announced : Option String → Anchors
  | none => []
  | some name => [(name, none)]

/-- The name of a node that has been read. -/
def named (name : Option String) (n : Node) : Anchors :=
  match name with
  | none => []
  | some name => [(name, some n)]

/-- A node that is not complete resolves nothing. -/
theorem Resolves.of_announced (name : Option String) (l : Anchors) :
    Resolves (announced name ++ l) l := by
  intro other n hother
  cases name with
  | none => exact hother
  | some name =>
    rw [announced, List.singleton_append, List.lookup_cons] at hother
    split at hother
    · cases hother
    · exact hother

theorem complete_named (name : Option String) (n : Node) :
    ∀ a ∈ named name n, a.2.isSome = true := by
  cases name with
  | none => exact List.forall_mem_nil _
  | some name => simp [named]

/-- A node whose parts are nodes. -/
def Node.isCollection : Node → Bool
  | sequence .. => true
  | mapping .. => true
  | _ => false

namespace Cursor

theorem openAnchor_eq (name : Option String) (c : Cursor) :
    c.openAnchor name = c.withAnchors (announced name ++ c.anchors) := by
  cases name with
  | none => rfl
  | some name => rfl

/-- Any other node is named where it ends. -/
theorem closeAnchor_leaf (hn : n.isCollection = false) (name : Option String) (c : Cursor) :
    c.closeAnchor name n = c.withAnchors (named name n ++ c.anchors) := by
  cases name with
  | none => rfl
  | some name =>
    cases n with
    | scalar => rfl
    | reference => rfl
    | sequence => cases hn
    | mapping => cases hn

/-- A name is given to the latest node that was announced with it, which is not among those
    that are complete. -/
theorem fillAnchor_append (name : String) (n : Node)
    (hnew : ∀ a ∈ new, a.2.isSome = true) (l : Anchors) :
    fillAnchor name n (new ++ (name, none) :: l) = new ++ (name, some n) :: l := by
  induction new with
  | nil => simp [fillAnchor]
  | cons a new ih =>
    obtain ⟨other, target⟩ := a
    rw [List.forall_mem_cons] at hnew
    obtain ⟨m, rfl⟩ := Option.isSome_iff_exists.mp hnew.1
    simp [fillAnchor, ih hnew.2]

/-- A collection is named where it was announced. -/
theorem closeAnchor_collection (hn : n.isCollection = true) (name : Option String)
    (hnew : ∀ a ∈ new, a.2.isSome = true) (h : c.anchors = new ++ (announced name ++ l)) :
    c.closeAnchor name n = c.withAnchors (new ++ named name n ++ l) := by
  cases name with
  | none =>
    rw [announced, List.nil_append] at h
    rw [named, List.append_nil, ← h]
    rfl
  | some name =>
    have hfill : fillAnchor name n c.anchors = new ++ named (some name) n ++ l := by
      rw [h, announced, List.singleton_append, fillAnchor_append name n hnew, named,
        List.append_assoc, List.singleton_append]
    cases n with
    | scalar => cases hn
    | reference => cases hn
    | sequence => exact congrArg c.withAnchors hfill
    | mapping => exact congrArg c.withAnchors hfill

/-- Naming a node does not move. -/
theorem closeAnchor_eq_withAnchors (name : Option String) (n : Node) (c : Cursor) :
    ∃ l, c.closeAnchor name n = c.withAnchors l := by
  unfold closeAnchor
  split
  · exact ⟨c.anchors, rfl⟩
  · exact ⟨_, rfl⟩
  · exact ⟨_, rfl⟩
  · exact ⟨_, rfl⟩

/-! ## Moving on -/

/-- From a cursor to a later one, the nodes in between having been read completely. -/
structure Moves (c c' : Cursor) (new : Anchors) : Prop where
  anchors : c'.anchors = new ++ c.anchors
  complete : ∀ a ∈ new, a.2.isSome = true
  suffix : c'.rest <:+ c.rest

namespace Moves

theorem refl (c : Cursor) : Moves c c [] :=
  ⟨rfl, List.forall_mem_nil _, List.suffix_refl _⟩

theorem trans (h : Moves c c₀ new) (h' : Moves c₀ c' more) : Moves c c' (more ++ new) := by
  refine ⟨?_, ?_, h'.suffix.trans h.suffix⟩
  · rw [h'.anchors, h.anchors, List.append_assoc]
  · intro a ha
    cases List.mem_append.mp ha with
    | inl ha => exact h'.complete a ha
    | inr ha => exact h.complete a ha

/-- What comes before may not name anything. -/
theorem prepend (h : Moves c c₀ []) (h' : Moves c₀ c' new) : Moves c c' new := by
  simpa using h.trans h'

theorem toToken (h : Moves c c' new) (flow : Bool) : Moves c (c'.toToken flow) new :=
  ⟨h.anchors, h.complete, (toToken_suffix flow c').trans h.suffix⟩

theorem skip (h : Moves c c' new) (k : Nat) : Moves c (c'.skip k) new :=
  ⟨h.anchors, h.complete, (skip_suffix k c').trans h.suffix⟩

theorem allowKeys (h : Moves c c' new) (keys : Bool) : Moves c (c'.allowKeys keys) new :=
  ⟨h.anchors, h.complete, h.suffix⟩

theorem after (h : Moves c c' new) {s : Scanned} (hs : s.rest <:+ c'.rest) :
    Moves c (c'.after s) new :=
  ⟨h.anchors, h.complete, hs.trans h.suffix⟩

/-- A collection that has been read after it was announced is one more named node. -/
theorem close (hn : n.isCollection = true) {name : Option String}
    (h : Moves (c.openAnchor name) c' new) :
    Moves c (c'.closeAnchor name n) (new ++ named name n) := by
  have hanchors : c'.anchors = new ++ (announced name ++ c.anchors) := by
    rw [h.anchors, openAnchor_eq, withAnchors_anchors]
  have hsuffix := h.suffix
  rw [openAnchor_eq, withAnchors_rest] at hsuffix
  rw [closeAnchor_collection hn name h.complete hanchors]
  refine ⟨rfl, ?_, hsuffix⟩
  intro a ha
  cases List.mem_append.mp ha with
  | inl ha => exact h.complete a ha
  | inr ha => exact complete_named name n a ha

/-- A scalar that has been read is one more named node. -/
theorem closeLeaf (hn : n.isCollection = false) (h : Moves c c' []) (name : Option String) :
    Moves c (c'.closeAnchor name n) (named name n) := by
  rw [closeAnchor_leaf hn]
  refine ⟨?_, complete_named name n, h.suffix⟩
  rw [withAnchors_anchors, h.anchors, List.nil_append]

end Moves

end Cursor

/-! ## Properties -/

/-- One property does not depend on what is known by name. -/
private theorem scanProperty_withAnchors (flow : Bool) (c : Cursor) (l : Anchors) :
    scanProperty flow (c.withAnchors l) =
      (scanProperty flow c).map fun r => (r.1, r.2.withAnchors l) := by
  unfold scanProperty
  simp only [Cursor.withAnchors_rest, Cursor.withAnchors_handles]
  split
  · split
    · rfl
    · rfl
  · split
    · rfl
    · rfl
  · rfl

/-- Properties do not depend on what is known by name. -/
theorem scanProperties_withAnchors (flow : Bool) (c : Cursor) (l : Anchors) :
    scanProperties flow (c.withAnchors l) =
      (scanProperties flow c).map fun r => (r.1, r.2.withAnchors l) := by
  unfold scanProperties
  simp only [scanProperty_withAnchors, Cursor.withAnchors_atProperty]
  cases c.atProperty with
  | false => rfl
  | true =>
    simp only [Bool.not_true, Bool.false_eq_true, if_false]
    cases scanProperty flow c with
    | none => rfl
    | some first =>
      simp only [Option.map_some, Cursor.withAnchors_toToken, Cursor.withAnchors_pos,
        Cursor.withAnchors_atProperty]
      -- there is no second property where the line or the properties end
      by_cases hstop : (!flow && (first.2.toToken flow).pos.line != c.pos.line ||
          !(first.2.toToken flow).atProperty) = true
      · simp only [hstop, if_true, Option.map_some]
      · simp only [hstop, if_false, Bool.false_eq_true, scanProperty_withAnchors]
        cases scanProperty flow (first.2.toToken flow) with
        | none => rfl
        | some second =>
          simp only [Option.map_some, Option.map_map]
          rfl

/-- Properties name nothing yet. -/
theorem scanProperties_moves {flow : Bool} (h : scanProperties flow c = some (props, c')) :
    c.Moves c' [] := by
  have hsame := scanProperties_withAnchors flow c c.anchors
  rw [Cursor.withAnchors_self, h, Option.map_some] at hsame
  have hcursor : c' = c'.withAnchors c.anchors := (Prod.mk.inj (Option.some.inj hsame)).2
  have hanchors : c'.anchors = c.anchors := by
    rw [hcursor, Cursor.withAnchors_anchors]
  exact ⟨hanchors, List.forall_mem_nil _, scanProperties_suffix h⟩

end RunPlan.Yaml
