import RunPlan.Proofs.Prepare
import RunPlan.Proofs.Result
import RunPlan.Proofs.Template

/-!
# Starting a workflow

A new workflow is the template with its job renamed. Not every legal name can be put into the
template (`Template.IsUsable`), and where one cannot, no document is made. The document is known
to be good before anything is written, so that a file is either left alone or replaced by a
workflow without problems.

## Key results

- `newDocument_some_iff`: which names make a document, and which one
- `newDocument_renames`: the workflow of a new document
- `run_createsOrKeeps`: what a run of `init` changes
-/

namespace RunPlan.Command

open FileSystem

variable {host : Host} {here : Location} {fs : FileSystem} {p : Path} {job : String}
  {name? : Option String} {text : String} {overwrite : Bool}

/-! ## New documents -/

/-- A name makes a document when it is legal and usable. -/
theorem newDocument_some_iff :
    newDocument (some job) = .ok text ↔
      checkJobName job = none ∧ Template.IsUsable job ∧ text = Template.forJob job := by
  cases hjob : checkJobName job with
  | some fault => simp [newDocument, hjob]
  | none =>
    have hiff (w : Workflow) := Template.ofText_forJob_eq_ok_iff (w := w) hjob
    cases hread : Workflow.ofText (Template.forJob job) with
    | error e =>
      have hunusable : ¬ Template.IsUsable job := by
        intro h
        have hok := (hiff _).mpr ⟨h, rfl⟩
        rw [hread] at hok
        cases hok
      simp [newDocument, hjob, hread, hunusable]
    | ok w =>
      have husable := ((hiff w).mp hread).1
      simp [newDocument, hjob, hread, husable, eq_comm]

/-- The name of the default job can be put into the template. -/
theorem isUsable_defaultJob : Template.IsUsable Template.defaultJob :=
  ⟨by decide, by decide, by decide⟩

/-- The template of the default job is its workflow. -/
theorem ofText_forJob_defaultJob :
    Workflow.ofText (Template.forJob Template.defaultJob) =
      .ok (Template.workflow Template.defaultJob) :=
  (Template.ofText_forJob_eq_ok_iff (by decide)).mpr ⟨isUsable_defaultJob, rfl⟩

/-- A new document is a workflow without problems. -/
theorem exists_workflow_of_newDocument (h : newDocument name? = .ok text) :
    ∃ w, Workflow.ofText text = .ok w ∧ w.problems = [] := by
  have hread : ∃ w, Workflow.ofText text = .ok w := by
    cases name? with
    | none =>
      obtain rfl := Except.ok.inj h
      exact ⟨_, ofText_forJob_defaultJob⟩
    | some job =>
      obtain ⟨hjob, husable, rfl⟩ := newDocument_some_iff.mp h
      exact ⟨_, (Template.ofText_forJob_eq_ok_iff hjob).mpr ⟨husable, rfl⟩⟩
  obtain ⟨w, hw⟩ := hread
  exact ⟨w, hw, Workflow.problems_of_ofText hw⟩

/-- A legal name makes a document exactly when it is usable. The document is the template with
    the name of its job replaced, and its workflow is that of the template but for the job and
    the two paths that hold its name. -/
theorem newDocument_renames (hjob : checkJobName job = none) :
    ∃ template own checkpointing, newDocument none = .ok template ∧
      Workflow.ofText template = .ok own ∧ own.training.checkpointing = some checkpointing ∧
      ((∃ text, newDocument (some job) = .ok text) ↔ Template.IsUsable job) ∧
      ∀ text, newDocument (some job) = .ok text →
        text = Text.replaceAll Template.defaultJob job template ∧
        Workflow.ofText text = .ok
          { own with
            job := job
            logPath := ⟨"log/" ++ job ++ ".txt"⟩
            training := { own.training with
              checkpointing := some { checkpointing with path := ⟨"checkpoint/" ++ job⟩ } } } := by
  refine ⟨_, _, _, rfl, ofText_forJob_defaultJob, rfl, ?_, fun text h => ?_⟩
  · constructor
    · intro ⟨text, h⟩
      exact (newDocument_some_iff.mp h).2.1
    · intro husable
      exact ⟨_, newDocument_some_iff.mpr ⟨hjob, husable, rfl⟩⟩
  · obtain ⟨-, husable, rfl⟩ := newDocument_some_iff.mp h
    exact ⟨(Template.replaceAll_forJob job).symm,
      (Template.ofText_forJob_eq_ok_iff hjob).mpr ⟨husable, rfl⟩⟩

/-- A name that reads as a number is kept as it is. -/
theorem newDocument_renames_number :
    checkJobName "1e5" = none ∧ ∃ template own checkpointing text,
      newDocument none = .ok template ∧ Workflow.ofText template = .ok own ∧
      own.training.checkpointing = some checkpointing ∧ newDocument (some "1e5") = .ok text ∧
      text = Text.replaceAll Template.defaultJob "1e5" template ∧
      Workflow.ofText text = .ok
        { own with
          job := "1e5"
          logPath := ⟨"log/1e5.txt"⟩
          training := { own.training with
            checkpointing := some { checkpointing with path := ⟨"checkpoint/1e5"⟩ } } } := by
  have hjob : checkJobName "1e5" = none := by decide
  obtain ⟨template, own, checkpointing, htemplate, hown, hcheckpointing, hiff, hrenamed⟩ :=
    newDocument_renames hjob
  obtain ⟨text, htext⟩ := hiff.mpr ⟨by decide, by decide, by decide⟩
  obtain ⟨hreplaced, hread⟩ := hrenamed text htext
  exact ⟨hjob, template, own, checkpointing, text, htemplate, hown, hcheckpointing, htext,
    hreplaced, hread⟩

/-- A legal name that reads as null makes no document. -/
theorem newDocument_ne_ok_null :
    checkJobName "null" = none ∧ ∀ text, newDocument (some "null") ≠ .ok text := by
  refine ⟨by decide, fun text h => ?_⟩
  obtain ⟨-, husable, -⟩ := newDocument_some_iff.mp h
  exact absurd husable.null (by decide)

/-! ## New files -/

/-- Whether a file can be written where a path leads: to a file, or to a name that its directory
    does not hold. -/
def LeadsToFile (here : Location) (p : Path) (fs : FileSystem) (l : Location) : Prop :=
  fs.resolve here p = .ok (fs.target l) ∧ fs.at? l ≠ some .directory

/-- What a run leaves behind that is to write a new workflow to a path, a file there being kept
    unless `overwrite`: either everything as it was, or the whole workflow and all else as it
    was. -/
structure CreatesOrKeeps (here : Location) (p : Path) (name? : Option String) (overwrite : Bool)
    (fs : FileSystem) (o : Outcome) : Prop where
  code : o.code = 0 ∨ o.code = 1
  /-- It succeeds when there is something to keep, or a document and a place for it. -/
  success : o.code = 0 ↔ (fs.pathExists here p = true ∧ overwrite = false) ∨
    (∃ text, newDocument name? = .ok text) ∧ ∃ l, LeadsToFile here p fs l
  kept : o.code ≠ 0 ∨ (fs.pathExists here p = true ∧ overwrite = false) → o.files = fs
  created : o.code = 0 → ¬ (fs.pathExists here p = true ∧ overwrite = false) →
    ∃ l text w, LeadsToFile here p fs l ∧
      o.files.resolve here p = .ok (.existing l (.text text)) ∧
      (∀ m ≠ l, o.files.at? m = fs.at? m) ∧
      newDocument name? = .ok text ∧ Workflow.ofText text = .ok w ∧ w.problems = []

/-- A path leads to the file that is written there, and nothing else changes. -/
theorem resolve_of_writeText {fs' : FileSystem} (h : fs.writeText here p text = .ok fs') :
    ∃ l, LeadsToFile here p fs l ∧ fs'.resolve here p = .ok (.existing l (.text text)) ∧
      ∀ m ≠ l, fs'.at? m = fs.at? m := by
  obtain ⟨l, hresolve, hno, rfl⟩ := writeText_eq_ok_iff.mp h
  have hroot : l ≠ [] := by
    rintro rfl
    exact hno rfl
  refine ⟨l, ⟨hresolve, hno⟩, ?_, fun m hm => by rw [at?_put fs hroot, if_neg hm]⟩
  -- a file that was there is replaced where it was, a new one is where the path ended
  cases hentry : fs.at? l with
  | some e =>
    rw [target, hentry] at hresolve
    exact (KeepsDirectories.put hno).resolve hresolve (by rw [at?_put fs hroot, if_pos rfl])
  | none =>
    rw [target, hentry] at hresolve
    rw [resolve_eq_walk _ _ (text_ne_of_resolve hresolve)]
    exact follow_put (walk_of_resolve hresolve) fun hno => absurd hno Bool.false_ne_true

/-- A run that fails, for want of a document or of a place for it, changes nothing. -/
theorem createsOrKeeps_failure (f : Failure)
    (hkept : ¬ (fs.pathExists here p = true ∧ overwrite = false))
    (hcannot : ¬ ((∃ text, newDocument name? = .ok text) ∧ ∃ l, LeadsToFile here p fs l)) :
    CreatesOrKeeps here p name? overwrite fs (.failure fs "" f) where
  code := Or.inr rfl
  success := iff_of_false nofun (not_or.mpr ⟨hkept, hcannot⟩)
  kept _ := rfl
  created := nofun

/-- The document is complete before the only step that changes anything. -/
theorem create_createsOrKeeps (host : Host) (p : Path) (name? : Option String)
    (overwrite : Bool) :
    CreatesOrKeeps host.here p name? overwrite host.files (create host p name? overwrite) := by
  unfold create
  by_cases hkept : host.pathExists p = true ∧ overwrite = false
  · rw [if_pos (by simpa using hkept)]
    exact ⟨Or.inl rfl, iff_of_true rfl (Or.inl hkept), fun _ => rfl,
      fun _ hnot => absurd hkept hnot⟩
  rw [if_neg (by simpa using hkept)]
  cases hdocument : newDocument name? with
  | error f =>
    apply createsOrKeeps_failure f hkept
    intro ⟨⟨text, htext⟩, _⟩
    cases hdocument.symm.trans htext
  | ok text =>
    cases hwrite : host.files.writeText host.here p text with
    | error fault =>
      -- there is a document, but no place for it
      simp only [hwrite]
      apply createsOrKeeps_failure _ hkept
      intro ⟨_, l, hresolve, hno⟩
      cases hwrite.symm.trans (writeText_eq_ok_iff.mpr ⟨l, hresolve, hno, rfl⟩)
    | ok fs' =>
      obtain ⟨l, hleads, hresolve, hothers⟩ := resolve_of_writeText hwrite
      obtain ⟨w, hw, hproblems⟩ := exists_workflow_of_newDocument hdocument
      simp only [hwrite]
      refine ⟨Or.inl rfl, iff_of_true rfl (Or.inr ⟨⟨text, hdocument⟩, l, hleads⟩), ?_,
        fun _ _ => ⟨l, text, w, hleads, hresolve, hothers, hdocument, hw, hproblems⟩⟩
      intro hsame
      cases hsame with
      | inl hcode => exact absurd rfl hcode
      | inr hkept' => exact absurd hkept' hkept

/-- A run of `init` leaves everything as it was or makes the whole workflow, and nothing else,
    whatever it is asked for and whatever there is. Arguments that are not understood change
    nothing. -/
theorem run_createsOrKeeps (host : Host) (arguments : List String) :
    (∀ interruption, Invocation.read arguments = .error interruption →
      (Command.run host arguments).files = host.files) ∧
    ∀ i p name? overwrite, Invocation.read arguments = .ok i →
      i.request = .create p name? overwrite →
      CreatesOrKeeps host.here p name? overwrite host.files (Command.run host arguments) := by
  constructor
  · intro interruption hread
    rw [Command.run, hread]
    cases interruption <;> rfl
  · intro i p name? overwrite hread hrequest
    have hrun : Command.run host arguments = create host.withEnvFile p name? overwrite := by
      rw [Command.run, hread]
      show i.perform host.withEnvFile = _
      rw [Invocation.perform, hrequest]
    have hcreates := create_createsOrKeeps host.withEnvFile p name? overwrite
    rwa [← hrun, Host.withEnvFile_here, Host.withEnvFile_files] at hcreates

/-- A file is replaced on demand. -/
theorem run_createsOrKeeps_overwrite :
    let files : FileSystem := ⟨[(["w.yml"], .text "old\n"), (["x"], .directory)]⟩
    let host : Host := ⟨files, ⟨"/x"⟩, []⟩
    let arguments := ["init", "--path", "../w.yml", "--job", "cim", "--force"]
    Invocation.read arguments = .ok ⟨.create ⟨"../w.yml"⟩ (some "cim") true, false⟩ ∧
      CreatesOrKeeps host.here ⟨"../w.yml"⟩ (some "cim") true host.files
        (Command.run host arguments) := by
  intro files host arguments
  have hread : Invocation.read arguments =
      .ok ⟨.create ⟨"../w.yml"⟩ (some "cim") true, false⟩ := eq_ok_of_toOption (by decide +kernel)
  exact ⟨hread, (run_createsOrKeeps host arguments).2 _ _ _ _ hread rfl⟩

end RunPlan.Command
