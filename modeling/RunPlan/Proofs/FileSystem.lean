import RunPlan.Proofs.Follow

/-!
# What operations on files change

Creating directories adds entries and changes none, also when it fails halfway, and each new
entry is a directory that the path or one of its ancestors leads to (`createDirAll_adds`).
Writing or appending to a file that is named in a directory changes that file only.

## Key results

- `isDirectory_of_createDirAll`: a path is a directory after it has been created
- `createDirAll_adds`: what creating a directory adds
- `put_of_writeText`, `put_of_appendText`: what writing to a file changes
-/

namespace RunPlan

/-- An ancestor of a path is what is left when its last step is taken away, once or several
    times. -/
inductive Path.IsAncestor (p : Path) : Path → Prop where
  | parent {q : Path} (h : p.parent = some q) : IsAncestor p q
  | step {q q' : Path} (h : IsAncestor p q) (h' : q.parent = some q') : IsAncestor p q'

/-- An ancestor of the parent is an ancestor. -/
theorem Path.IsAncestor.of_parent {p q q' : Path} (h : p.parent = some q)
    (h' : q.IsAncestor q') : p.IsAncestor q' := by
  induction h' with
  | parent hq => exact .step (.parent h) hq
  | step _ hq ih => exact .step ih hq

namespace FileSystem

variable {fs fs' fs'' : FileSystem} {here l l' : Location} {e : Entry} {p : Path}

/-- Whatever there is stays as it is. -/
def KeepsEntries (fs fs' : FileSystem) : Prop :=
  ∀ l e, fs.at? l = some e → fs'.at? l = some e

theorem KeepsEntries.refl (fs : FileSystem) : KeepsEntries fs fs :=
  fun _ _ h => h

theorem KeepsEntries.trans (h : KeepsEntries fs fs')
    (h' : KeepsEntries fs' fs'') : KeepsEntries fs fs'' :=
  fun l e hl => h' l e (h l e hl)

theorem KeepsEntries.keepsDirectories (h : KeepsEntries fs fs') :
    KeepsDirectories fs fs' :=
  fun l hl => h l .directory hl

/-- Entries are added and none is changed; each new one is a directory that one of the given
    paths leads to. -/
structure AddsDirectories (here : Location) (paths : Path → Prop) (fs fs' : FileSystem) :
    Prop where
  kept {l : Location} {e : Entry} (h : fs.at? l = some e) : fs'.at? l = some e
  added {l : Location} {e : Entry} (h : fs.at? l = none) (h' : fs'.at? l = some e) :
    ∃ p, paths p ∧ fs'.resolve here p = .ok (.existing l .directory)

variable {paths paths' : Path → Prop}

theorem AddsDirectories.refl (here : Location) (paths : Path → Prop) (fs : FileSystem) :
    AddsDirectories here paths fs fs where
  kept h := h
  added h h' := by
    rw [h] at h'
    cases h'

theorem AddsDirectories.keepsDirectories (h : AddsDirectories here paths fs fs') :
    KeepsDirectories fs fs' :=
  fun _ hl => h.kept hl

theorem AddsDirectories.trans (h : AddsDirectories here paths fs fs')
    (h' : AddsDirectories here paths fs' fs'') : AddsDirectories here paths fs fs'' where
  kept hl := h'.kept (h.kept hl)
  added {l e} hl hl'' := by
    cases hl' : fs'.at? l with
    | none => exact h'.added hl' hl''
    | some d =>
      obtain ⟨p, hp, hresolve⟩ := h.added hl hl'
      have hdirectory := at?_of_follow (walk_of_resolve hresolve)
      exact ⟨p, hp, h'.keepsDirectories.resolve hresolve (h'.kept hdirectory)⟩

theorem AddsDirectories.mono (h : AddsDirectories here paths fs fs')
    (hpaths : ∀ p, paths p → paths' p) : AddsDirectories here paths' fs fs' where
  kept := h.kept
  added hl hl' := by
    obtain ⟨p, hp, hresolve⟩ := h.added hl hl'
    exact ⟨p, hpaths p hp, hresolve⟩

/-! ## Creating directories -/

/-- A directory that is created is where its path leads, and nothing else is new. -/
theorem createDir_adds (h : fs.createDir here p = .ok fs') :
    AddsDirectories here (· = p) fs fs' ∧ fs'.isDirectory here p = true := by
  unfold createDir at h
  cases hresolve : fs.resolve here p with
  | error fault => simp [hresolve] at h
  | ok t =>
    cases t with
    | existing l e => simp [hresolve] at h
    | missing l separator =>
      simp only [hresolve, Except.ok.injEq] at h
      subst h
      -- there was nothing where the directory is put
      have hwalk := walk_of_resolve hresolve
      obtain ⟨hnone, hroot⟩ := at?_of_follow_missing hwalk
      have hleads : (fs.put l .directory).resolve here p = .ok (.existing l .directory) := by
        rw [resolve_eq_walk _ _ (text_ne_of_resolve hresolve)]
        exact follow_put hwalk fun _ => rfl
      refine ⟨⟨fun {m d} hm => ?_, fun {m d} hm hm' => ?_⟩, isDirectory_iff.mpr ⟨l, hleads⟩⟩
      · have hne : m ≠ l := by
          rintro rfl
          rw [hnone] at hm
          cases hm
        rw [at?_put fs hroot, if_neg hne, hm]
      · have heq : m = l := by
          by_contra hne
          rw [at?_put fs hroot, if_neg hne, hm] at hm'
          cases hm'
        rw [heq]
        exact ⟨p, rfl, hleads⟩

/-- Where a fault is passed over, there is a directory already. -/
private theorem isDirectory_of_passedOver {fault : FileFault}
    (h : (if fs.isDirectory here p then none else some fault) = none) :
    fs.isDirectory here p = true := by
  by_contra hno
  rw [if_neg hno] at h
  cases h

/-- Creating a directory adds directories that its path and ancestors lead to, also when it
    fails in the end, and makes a directory of the path when it does not. -/
private theorem createDirAllFrom_spec (fuel : Nat) (fs : FileSystem) (here : Location) (p : Path) :
    AddsDirectories here (fun q => q = p ∨ p.IsAncestor q) fs
        (createDirAllFrom fuel fs here p).1 ∧
      ((createDirAllFrom fuel fs here p).2 = none → p.text ≠ "" →
        (createDirAllFrom fuel fs here p).1.isDirectory here p = true) := by
  induction fuel generalizing fs p with
  | zero => exact ⟨.refl here _ fs, nofun⟩
  | succ fuel ih =>
    unfold createDirAllFrom
    by_cases hp : p.text = ""
    · rw [if_pos hp]
      exact ⟨.refl here _ fs, fun _ hne => absurd hp hne⟩
    rw [if_neg hp]
    -- it is created at once, or after its parent, or cannot be created
    cases hcreate : fs.createDir here p with
    | ok made =>
      obtain ⟨hadds, hdirectory⟩ := createDir_adds hcreate
      exact ⟨hadds.mono fun q hq => Or.inl hq, fun _ _ => hdirectory⟩
    | error fault =>
      cases fault with
      | notFound =>
        cases hparent : p.parent with
        | none => exact ⟨.refl here _ fs, nofun⟩
        | some parent =>
          -- the ancestors of the parent are ancestors, and so is the parent
          have hadds : AddsDirectories here (fun q => q = p ∨ p.IsAncestor q) fs
              (createDirAllFrom fuel fs here parent).1 := by
            apply (ih fs parent).1.mono
            intro q hq
            cases hq with
            | inl hq => exact Or.inr (hq ▸ .parent hparent)
            | inr hq => exact Or.inr (.of_parent hparent hq)
          dsimp only
          cases hmade : createDirAllFrom fuel fs here parent with
          | mk made fault =>
            rw [hmade] at hadds
            cases fault with
            | some fault => exact ⟨hadds, nofun⟩
            | none =>
              cases hagain : made.createDir here p with
              | ok made' =>
                obtain ⟨hadds', hdirectory⟩ := createDir_adds hagain
                simp only [hagain]
                exact ⟨hadds.trans (hadds'.mono fun q hq => Or.inl hq), fun _ _ => hdirectory⟩
              | error fault =>
                simp only [hagain]
                exact ⟨hadds, fun h _ => isDirectory_of_passedOver h⟩
      | _ => exact ⟨.refl here _ fs, fun h _ => isDirectory_of_passedOver h⟩

/-- Creating a directory adds directories that its path and its ancestors lead to, also when it
    fails in the end. -/
theorem createDirAll_adds (fs : FileSystem) (here : Location) (p : Path) :
    AddsDirectories here (fun q => q = p ∨ p.IsAncestor q) fs (fs.createDirAll here p).1 :=
  (createDirAllFrom_spec _ fs here p).1

/-- A path is a directory after it has been created. -/
theorem isDirectory_of_createDirAll (hp : p.text ≠ "") (h : fs.createDirAll here p = (fs', none)) :
    fs'.isDirectory here p = true := by
  have hspec := (createDirAllFrom_spec (p.text.length + 1) fs here p).2
  unfold createDirAll at h
  rw [h] at hspec
  exact hspec rfl hp

/-- The current directory is there or cannot be created. -/
theorem createDirAll_current (fs : FileSystem) (here : Location) :
    (fs.createDirAll here ⟨"."⟩).1 = fs := by
  -- whatever the current directory is, it is not missing from itself
  have hnever (fs' : FileSystem) : fs.createDir here ⟨"."⟩ ≠ .ok fs' := by
    intro h
    unfold createDir at h
    have hwalk : fs.resolve here ⟨"."⟩ = fs.follow here [['.']] := rfl
    have hnext : next here ['.'] = here := rfl
    cases hfollow : fs.follow here [['.']] with
    | error fault => simp [hwalk, hfollow] at h
    | ok t =>
      cases t with
      | existing l e => simp [hwalk, hfollow] at h
      | missing l separator =>
        obtain ⟨hhere, hnothing | ⟨hnone, hl, -⟩⟩ := follow_cons_missing hfollow
        · obtain ⟨e, heq, -⟩ := exists_of_follow_nil hnothing
          cases heq
        · rw [← hl, hnext, hhere] at hnone
          cases hnone
  have hparent : Path.parent ⟨"."⟩ = some ⟨""⟩ := by decide
  show (createDirAllFrom 2 fs here ⟨"."⟩).1 = fs
  unfold createDirAllFrom
  cases hcreate : fs.createDir here ⟨"."⟩ with
  | ok fs' => exact absurd hcreate (hnever fs')
  | error fault =>
    cases fault with
    | notFound =>
      have hempty : createDirAllFrom 1 fs here ⟨""⟩ = (fs, none) := rfl
      simp only [hparent, hempty, hcreate]
      rfl
    | _ => rfl

/-! ## Writing files -/

/-- A file is written where a path leads to a name that is no directory, and nowhere else. -/
theorem writeText_eq_ok_iff {contents : String} :
    fs.writeText here p contents = .ok fs' ↔
      ∃ l, fs.resolve here p = .ok (fs.target l) ∧ fs.at? l ≠ some .directory ∧
        fs' = fs.put l (.text contents) := by
  unfold writeText
  constructor
  · intro h
    cases hresolve : fs.resolve here p with
    | error fault => simp [hresolve] at h
    | ok t =>
      cases t with
      | missing l separator =>
        have hnone := (at?_of_follow_missing (walk_of_resolve hresolve)).1
        cases separator with
        | true => simp [hresolve] at h
        | false =>
          simp only [hresolve, Bool.false_eq_true, if_false, Except.ok.injEq] at h
          exact ⟨l, by rw [target, hnone], by simp [hnone], h.symm⟩
      | existing l e =>
        have hentry := at?_of_follow (walk_of_resolve hresolve)
        have htarget : fs.target l = .existing l e := by rw [target, hentry]
        cases e with
        | directory => simp [hresolve] at h
        | text before =>
          simp only [hresolve, Except.ok.injEq] at h
          exact ⟨l, by rw [htarget], by simp [hentry], h.symm⟩
        | binary before =>
          simp only [hresolve, Except.ok.injEq] at h
          exact ⟨l, by rw [htarget], by simp [hentry], h.symm⟩
  · intro ⟨l, hresolve, hno, hput⟩
    rw [hresolve, target, hput]
    cases hentry : fs.at? l with
    | none => rfl
    | some e =>
      cases e with
      | directory => exact absurd hentry hno
      | text before => rfl
      | binary before => rfl

/-- Writing to a file in a directory puts it there. -/
theorem put_of_writeText {contents : String} (htarget : fs.resolve here p = .ok (fs.target l))
    (h : fs.writeText here p contents = .ok fs') :
    fs.at? l ≠ some .directory ∧ fs' = fs.put l (.text contents) := by
  obtain ⟨l', hresolve, hno, hput⟩ := writeText_eq_ok_iff.mp h
  obtain rfl := fs.target_injective (Except.ok.inj (htarget.symm.trans hresolve))
  exact ⟨hno, hput⟩

/-- Appending to a file in a directory puts a file there, with the text at the end of what it
    had. -/
theorem put_of_appendText {contents : String} (htarget : fs.resolve here p = .ok (fs.target l))
    (h : fs.appendText here p contents = .ok fs') :
    fs.at? l ≠ some .directory ∧ ∃ e, e ≠ .directory ∧ fs' = fs.put l e ∧
      (contents = "" → fs.at? l = some e ∨ fs.at? l = none ∧ e = .text "") := by
  unfold appendText at h
  rw [htarget] at h
  unfold target at h
  cases hl : fs.at? l with
  | none =>
    simp only [hl, Bool.false_eq_true, if_false, Except.ok.injEq] at h
    exact ⟨nofun, .text contents, nofun, h.symm, fun he => Or.inr ⟨rfl, he ▸ rfl⟩⟩
  | some e =>
    cases e with
    | directory => simp [hl] at h
    | text before =>
      simp only [hl, Except.ok.injEq] at h
      refine ⟨nofun, .text (before ++ contents), nofun, h.symm, fun he => Or.inl ?_⟩
      rw [he, String.append_empty]
    | binary before =>
      simp only [hl, Except.ok.injEq] at h
      refine ⟨nofun, .binary (before ++ contents.toUTF8.toList), nofun, h.symm, fun he => ?_⟩
      rw [he]
      have hnone : "".toUTF8.toList = [] := by simp
      rw [hnone, List.append_nil]
      exact Or.inl rfl

/-- Appending nothing to a file in a directory leaves it as it is, and a missing file is there
    then. -/
theorem keepsEntries_of_appendText (htarget : fs.resolve here p = .ok (fs.target l))
    (h : fs.appendText here p "" = .ok fs') :
    KeepsEntries fs fs' ∧ ∃ e, e ≠ .directory ∧ fs'.at? l = some e ∧
      (fs.at? l = none → e = .text "") ∧ ∀ m ≠ l, fs'.at? m = fs.at? m := by
  obtain ⟨hno, e, he, rfl, hempty⟩ := put_of_appendText htarget h
  have hroot : l ≠ [] := by
    rintro rfl
    exact hno rfl
  have hfile : (fs.put l e).at? l = some e := by
    rw [at?_put fs hroot, if_pos rfl]
  have hothers (m : Location) (hm : m ≠ l) : (fs.put l e).at? m = fs.at? m := by
    rw [at?_put fs hroot, if_neg hm]
  refine ⟨fun m d hm => ?_, e, he, hfile, fun hnone => ?_, hothers⟩
  · by_cases heq : m = l
    · subst heq
      cases hempty rfl with
      | inl hsame => rw [hfile, ← hsame, hm]
      | inr hnew => exact absurd (hnew.1.symm.trans hm) nofun
    · rw [hothers m heq, hm]
  · cases hempty rfl with
    | inl hsame => exact absurd (hnone.symm.trans hsame) nofun
    | inr hnew => exact hnew.2

/-! ## Looking at files -/

variable {text : String}

/-- The location of what a path leads to. -/
def location? (fs : FileSystem) (here : Location) (p : Path) : Option Location :=
  match fs.resolve here p with
  | .ok (.existing l _) => some l
  | _ => none

theorem location?_eq_some (h : fs.resolve here p = .ok (.existing l e)) :
    fs.location? here p = some l := by
  rw [location?, h]

/-- A file that holds a text is read. -/
theorem readText_eq_ok (h : fs.resolve here p = .ok (.existing l (.text text))) :
    fs.readText here p = .ok text := by
  rw [readText, h]

/-- What is there and no directory is a file. -/
theorem isFile_eq_true (he : e ≠ .directory) (h : fs.resolve here p = .ok (.existing l e)) :
    fs.isFile here p = true := by
  rw [isFile, h]
  cases e with
  | directory => exact absurd rfl he
  | text => rfl
  | binary => rfl

/-- Something is at a location when it is known to hold it. -/
theorem target_eq_existing_iff :
    fs.target l = .existing l' e ↔ l = l' ∧ fs.at? l = some e := by
  unfold target
  cases fs.at? l with
  | none => simp
  | some d => simp

end FileSystem

end RunPlan
