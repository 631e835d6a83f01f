import RunPlan.Command.Run
import RunPlan.Proofs.Component
import RunPlan.Proofs.FileSystem
import RunPlan.Proofs.Load

/-!
# The steps of preparing a run

What each part of the work leaves behind, and what it leaves alone. Up to the env files the
steps only add directories, so that whatever was there stays; each env file is put in a
directory that is there by then, under a name that no other component has.

## Key results

- `takeSteps_append_iff`, `takeSteps_keeps`: runs of steps
- `exists_opensLog`, `at?_of_appendText_log`: what opening and writing the log file changes
- `takeSteps_envFiles`: what writing the env files changes
- `exists_stages`: what all steps do when none of them fails
-/

namespace RunPlan

/-! ## The host -/

namespace Host

/-- The env file of a host changes variables only. -/
theorem withEnvFile_eq (host : Host) :
    ∃ environment, host.withEnvFile = { host with environment := environment } := by
  unfold withEnvFile
  split
  · exact ⟨_, rfl⟩
  · exact ⟨host.environment, rfl⟩

@[simp] theorem withEnvFile_files (host : Host) : host.withEnvFile.files = host.files := by
  obtain ⟨environment, h⟩ := host.withEnvFile_eq
  rw [h]

@[simp] theorem withEnvFile_directory (host : Host) :
    host.withEnvFile.directory = host.directory := by
  obtain ⟨environment, h⟩ := host.withEnvFile_eq
  rw [h]

@[simp] theorem withEnvFile_here (host : Host) : host.withEnvFile.here = host.here := by
  unfold here
  rw [withEnvFile_directory]

end Host

namespace Command

open FileSystem

variable {here : Location} {p q m : Progress} {steps steps' : List Step} {step : Step}

/-! ## Runs of steps -/

/-- After a step that does not fail the others are taken. -/
theorem takeSteps_cons (h : step p = (m, none)) :
    takeSteps (step :: steps) p = takeSteps steps m := by
  rw [takeSteps, h]

/-- A step that fails is the last one. -/
theorem takeSteps_cons_failure {f : Failure} (h : step p = (m, some f)) :
    takeSteps (step :: steps) p = (m, some f) := by
  rw [takeSteps, h]

/-- The first step is taken before the others. -/
theorem takeSteps_cons_iff :
    takeSteps (step :: steps) p = (q, none) ↔
      ∃ m, step p = (m, none) ∧ takeSteps steps m = (q, none) := by
  cases hstep : step p with
  | mk m fault =>
    cases fault with
    | none => simp [takeSteps_cons hstep]
    | some f => simp [takeSteps_cons_failure hstep]

/-- Steps in a row are taken one after the other. -/
theorem takeSteps_append_iff :
    takeSteps (steps ++ steps') p = (q, none) ↔
      ∃ m, takeSteps steps p = (m, none) ∧ takeSteps steps' m = (q, none) := by
  -- the progress that the later steps start from is not the first one
  induction steps generalizing p with
  | nil => simp [takeSteps]
  | cons step steps ih =>
    rw [List.cons_append, takeSteps_cons_iff]
    simp only [takeSteps_cons_iff, ih]
    constructor
    · intro ⟨m, hstep, m', hsteps, hrest⟩
      exact ⟨m', ⟨m, hstep, hsteps⟩, hrest⟩
    · intro ⟨m', ⟨m, hstep, hsteps⟩, hrest⟩
      exact ⟨m, hstep, m', hsteps, hrest⟩

/-- A failure is that of a step. -/
theorem exists_step_of_failure {f : Failure} (h : takeSteps steps p = (q, some f)) :
    ∃ step ∈ steps, ∃ m m', step m = (m', some f) := by
  induction steps generalizing p with
  | nil => cases h
  | cons step steps ih =>
    cases hstep : step p with
    | mk m fault =>
      cases fault with
      | none =>
        -- a later step has failed
        rw [takeSteps_cons hstep] at h
        obtain ⟨other, hother, hfails⟩ := ih h
        exact ⟨other, List.mem_cons_of_mem _ hother, hfails⟩
      | some fault =>
        rw [takeSteps_cons_failure hstep, Prod.mk.injEq, Option.some.injEq] at h
        exact ⟨step, List.mem_cons_self, p, m, h.2 ▸ hstep⟩

/-- A step leaves whatever there is. -/
def KeepsFiles (step : Step) : Prop :=
  ∀ p, KeepsEntries p.files (step p).1.files

theorem KeepsFiles.keepsEntries {fault : Option Failure} (hkeeps : KeepsFiles step)
    (h : step p = (q, fault)) : KeepsEntries p.files q.files := by
  have hfiles := hkeeps p
  rw [h] at hfiles
  exact hfiles

/-- A run of steps leaves whatever there is when each of them does. -/
theorem takeSteps_keeps (h : ∀ step ∈ steps, KeepsFiles step) : KeepsFiles (takeSteps steps) := by
  induction steps with
  | nil => exact fun p => .refl p.files
  | cons step steps ih =>
    rw [List.forall_mem_cons] at h
    intro p
    cases hstep : step p with
    | mk m fault =>
      have hfirst := h.1.keepsEntries hstep
      cases fault with
      | none =>
        rw [takeSteps_cons hstep]
        exact hfirst.trans (ih h.2 m)
      | some f =>
        rw [takeSteps_cons_failure hstep]
        exact hfirst

/-! ## Single steps -/

theorem keepsFiles_acceptStep (w : Workflow) : KeepsFiles (acceptStep w) := by
  intro p
  unfold acceptStep
  cases w.validate with
  | error e => exact .refl p.files
  | ok => exact .refl p.files

theorem keepsFiles_announceStep (run : Workflow) (directory : Path) :
    KeepsFiles (announceStep run directory) :=
  fun p => .refl p.files

theorem keepsFiles_inputStep (here : Location) (setting : String) (input : Path) :
    KeepsFiles (inputStep here setting input) := by
  intro p
  unfold inputStep
  split
  · exact .refl p.files
  · exact .refl p.files

theorem keepsFiles_directoryStep (here : Location) (directory : Path) :
    KeepsFiles (directoryStep here directory) := by
  intro p
  have hadds := createDirAll_adds p.files here directory
  unfold directoryStep
  cases hcreate : p.files.createDirAll here directory with
  | mk files fault =>
    rw [hcreate] at hadds
    cases fault with
    | none => exact fun l e hl => hadds.kept hl
    | some f => exact fun l e hl => hadds.kept hl

/-- A directory is there after the step that creates it. -/
theorem isDirectory_of_directoryStep {directory : Path} (hd : directory.text ≠ "")
    (h : directoryStep here directory p = (q, none)) :
    q.files.isDirectory here directory = true := by
  unfold directoryStep at h
  cases hcreate : p.files.createDirAll here directory with
  | mk files fault =>
    rw [hcreate] at h
    cases fault with
    | none =>
      cases h
      exact isDirectory_of_createDirAll hd hcreate
    | some f => cases h

theorem keepsFiles_requiredDirStep (here : Location) (directory : Path) :
    KeepsFiles (requiredDirStep here directory) := by
  apply takeSteps_keeps
  rw [List.forall_mem_cons, List.forall_mem_singleton]
  exact ⟨keepsFiles_directoryStep here directory, fun p => .refl p.files⟩

/-- The same for a directory that the run writes to. -/
theorem isDirectory_of_requiredDirStep {directory : Path} (hd : directory.text ≠ "")
    (h : requiredDirStep here directory p = (q, none)) :
    q.files.isDirectory here directory = true := by
  obtain ⟨m, hcreate, hsay⟩ := takeSteps_cons_iff.mp h
  obtain ⟨m', hm', hdone⟩ := takeSteps_cons_iff.mp hsay
  have hfiles : q.files = m.files := by
    cases hm'
    cases hdone
    rfl
  rw [hfiles]
  exact isDirectory_of_directoryStep hd hcreate

theorem keepsFiles_requiredDirSteps (here : Location) (directories : List Path) :
    KeepsFiles (takeSteps (directories.map (requiredDirStep here))) := by
  apply takeSteps_keeps
  intro step hstep
  obtain ⟨directory, -, rfl⟩ := List.mem_map.mp hstep
  exact keepsFiles_requiredDirStep here directory

/-- All directories that the run writes to are there after their steps. -/
theorem isDirectory_of_requiredDirSteps {directories : List Path}
    (hd : ∀ d ∈ directories, d.text ≠ "")
    (h : takeSteps (directories.map (requiredDirStep here)) p = (q, none)) :
    ∀ d ∈ directories, q.files.isDirectory here d = true := by
  intro d hmem
  -- the steps after the one that creates the directory leave it
  obtain ⟨before, after, rfl⟩ := List.append_of_mem hmem
  rw [List.map_append, List.map_cons, takeSteps_append_iff] at h
  obtain ⟨m, -, hrest⟩ := h
  obtain ⟨m', hstep, hafter⟩ := takeSteps_cons_iff.mp hrest
  have hkeeps := (keepsFiles_requiredDirSteps here after).keepsEntries hafter
  exact hkeeps.keepsDirectories.isDirectory (isDirectory_of_requiredDirStep (hd d hmem) hstep)

/-! ## The log file -/

/-- The log file of the path `p` has been opened as `file`: it is called `name` in the
    directory at `l`. Nothing is new but this file and directories on the way to it. -/
structure OpensLog (here : Location) (p : Path) (fs fs' : FileSystem) (file parent : Path)
    (name : String) (l : Location) : Prop where
  parent_eq : p.parent = some parent
  name_eq : p.fileName = some name
  walk_parent : fs'.walk here parent = .ok (.existing l .directory)
  file_eq : ∃ directory, file = directory.child name ∧
    fs'.walk here directory = .ok (.existing l .directory)
  entry : ∃ e, e ≠ .directory ∧ fs'.at? (l ++ [name]) = some e ∧
    (fs.at? (l ++ [name]) = none → e = .text "")
  kept : KeepsEntries fs fs'
  added {m : Location} {e : Entry} (h : fs.at? m = none) (h' : fs'.at? m = some e) :
    m = l ++ [name] ∨ ∃ q, p.IsAncestor q ∧ fs'.resolve here q = .ok (.existing m .directory)

variable {fs fs' fs'' : FileSystem} {path file parent : Path} {name : String} {l : Location}

/-- Creating the directory of the log file adds ancestors of its path only, and leads where
    the parent leads. -/
private theorem createDirAll_logDirectory {directory : Path} (hparent : path.parent = some parent)
    (hdirectory : (path.parent.filter (·.text ≠ "")).getD ⟨"."⟩ = directory)
    (h : fs.createDirAll here directory = (fs', none)) :
    AddsDirectories here path.IsAncestor fs fs' ∧
      ∃ l, fs'.walk here parent = .ok (.existing l .directory) ∧
        fs'.walk here directory = .ok (.existing l .directory) := by
  rw [hparent] at hdirectory
  by_cases hp : parent.text = ""
  · -- the current directory is not created, and the empty path leads to it too
    have hcurrent : directory = ⟨"."⟩ := by
      rw [← hdirectory, Option.filter_some_neg (by simpa using hp)]
      rfl
    subst hcurrent
    have hfiles := createDirAll_current fs here
    rw [h] at hfiles
    obtain rfl : fs' = fs := hfiles
    obtain ⟨l, hl⟩ := isDirectory_iff.mp (isDirectory_of_createDirAll (by decide) h)
    have hwalk := walk_of_resolve hl
    have hempty : parent = ⟨""⟩ := congrArg Path.mk hp
    refine ⟨.refl here _ fs', l, ?_, hwalk⟩
    rw [hempty]
    exact follow_cons_iff.mpr (follow_cons_iff.mp hwalk)
  · have hsame : directory = parent := by
      rw [← hdirectory, Option.filter_some_pos (by simpa using hp)]
      rfl
    subst hsame
    obtain ⟨l, hl⟩ := isDirectory_iff.mp (isDirectory_of_createDirAll hp h)
    have hadds := createDirAll_adds fs here directory
    rw [h] at hadds
    refine ⟨hadds.mono fun q hq => ?_, l, walk_of_resolve hl, walk_of_resolve hl⟩
    cases hq with
    | inl hq => exact hq ▸ .parent hparent
    | inr hq => exact .of_parent hparent hq

/-- Opening the log file leaves it open. -/
theorem exists_opensLog (h : openLog fs here path = (fs', .ok file)) :
    ∃ parent name l, OpensLog here path fs fs' file parent name l := by
  unfold openLog at h
  cases hname : path.fileName with
  | none => simp [hname] at h
  | some name =>
    obtain ⟨hentryName, parent, hparent⟩ := Path.isEntryName_of_fileName hname
    simp only [hname] at h
    generalize hdirectory : (path.parent.filter (·.text ≠ "")).getD ⟨"."⟩ = directory at h
    cases hcreate : fs.createDirAll here directory with
    | mk made fault =>
      cases fault with
      | some fault => simp [hcreate] at h
      | none =>
        simp only [hcreate] at h
        cases happend : made.appendText here (directory.child name) "" with
        | error fault => simp [happend] at h
        | ok opened =>
          simp only [happend, Prod.mk.injEq, Except.ok.injEq] at h
          obtain ⟨rfl, rfl⟩ := h
          -- the directory is there, so the file is looked for in it and nowhere else
          obtain ⟨hadds, l, hwalk, hwalk'⟩ := createDirAll_logDirectory hparent hdirectory hcreate
          obtain ⟨hkeeps, e, he, hfile, hnew, hothers⟩ :=
            keepsEntries_of_appendText (resolve_child hentryName hwalk') happend
          refine ⟨parent, name, l, hparent, hname, hkeeps.keepsDirectories.walk hwalk,
            ⟨directory, rfl, hkeeps.keepsDirectories.walk hwalk'⟩, ⟨e, he, hfile, fun hnone => ?_⟩,
            fun m d hm => hkeeps m d (hadds.kept hm), fun {m d} hm hm' => ?_⟩
          · -- the file is not one of the directories that are new
            cases hmade : made.at? (l ++ [name]) with
            | none => exact hnew hmade
            | some d =>
              obtain ⟨q, -, hq⟩ := hadds.added hnone hmade
              have hdirectory := hkeeps _ _ (at?_of_follow (walk_of_resolve hq))
              exact absurd (Option.some.inj (hfile.symm.trans hdirectory)) he
          · by_cases heq : m = l ++ [name]
            · exact Or.inl heq
            · rw [hothers m heq] at hm'
              obtain ⟨q, hq, hresolve⟩ := hadds.added hm hm'
              have hdirectory := hkeeps m _ (at?_of_follow (walk_of_resolve hresolve))
              exact Or.inr ⟨q, hq, hkeeps.keepsDirectories.resolve hresolve hdirectory⟩

/-- The log file is where it was opened as long as directories stay. -/
theorem OpensLog.resolve_file (h : OpensLog here path fs fs' file parent name l)
    (hkeeps : KeepsDirectories fs' fs'') :
    fs''.resolve here file = .ok (fs''.target (l ++ [name])) := by
  obtain ⟨directory, rfl, hwalk⟩ := h.file_eq
  exact resolve_child (Path.isEntryName_of_fileName h.name_eq).1 (hkeeps.walk hwalk)

/-- Messages go to the log file alone, also when they get lost. -/
theorem at?_of_appendText_log {e : Entry} {text : String}
    (htarget : fs.resolve here file = .ok (fs.target l)) (hentry : fs.at? l = some e)
    (he : e ≠ .directory) (h : (fs.appendText here file text).toOption.getD fs = fs') :
    (∃ e', e' ≠ .directory ∧ fs'.at? l = some e' ∧ (text = "" → e' = e)) ∧
      ∀ m ≠ l, fs'.at? m = fs.at? m := by
  cases happend : fs.appendText here file text with
  | error fault =>
    rw [happend] at h
    obtain rfl : fs = fs' := h
    exact ⟨⟨e, he, hentry, fun _ => rfl⟩, fun m _ => rfl⟩
  | ok appended =>
    rw [happend] at h
    obtain rfl : appended = fs' := h
    obtain ⟨hno, e', he', rfl, hempty⟩ := put_of_appendText htarget happend
    have hroot : l ≠ [] := by
      rintro rfl
      exact hno rfl
    refine ⟨⟨e', he', ?_, fun htext => ?_⟩, fun m hm => ?_⟩
    · rw [at?_put fs hroot, if_pos rfl]
    · cases hempty htext with
      | inl hsame => exact Option.some.inj (hsame.symm.trans hentry)
      | inr hnew => exact absurd (hnew.1.symm.trans hentry) nofun
    · rw [at?_put fs hroot, if_neg hm]

/-! ## Env files -/

/-- The location of the env file of a component in the directory at `E`. -/
def envLocation (E : Location) (c : Component) : Location :=
  E ++ [c.name ++ ".env"]

variable {E : Location} {envDirectory : Path} {c : Component} {env : Environment}

/-- No two components share an env file. -/
theorem envLocation_injective (E : Location) : Function.Injective (envLocation E) := by
  intro c d h
  have hfile : c.name ++ ".env" = d.name ++ ".env" :=
    List.singleton_injective (List.append_cancel_left h)
  have hname := congrArg String.toList hfile
  rw [String.toList_append, String.toList_append] at hname
  exact Component.name_injective (String.toList_injective (List.append_cancel_right hname))

/-- The name of the directory of env files can stand in a directory. -/
theorem isEntryName_env : IsEntryName "env" where
  nonvoid := by decide
  notUp := by decide
  noSeparator := by decide

/-- The name of an env file can stand in a directory. -/
theorem isEntryName_envFile (c : Component) : IsEntryName (c.name ++ ".env") := by
  have hletter : 'e' ∈ (c.name ++ ".env").toList := by
    rw [String.toList_append, List.mem_append]
    exact Or.inr (by decide)
  apply isEntryName_of_mem hletter (by decide)
  rw [String.toList_append, List.mem_append]
  exact not_or_intro c.separator_notMem_name (by decide)

/-- An env file is where its directory has it. -/
theorem resolve_envFileOf (c : Component)
    (hwalk : fs.walk here envDirectory = .ok (.existing E .directory)) :
    fs.resolve here (envFileOf envDirectory c) = .ok (fs.target (envLocation E c)) :=
  resolve_child (isEntryName_envFile c) hwalk

/-- The step that writes an env file puts it in its directory. -/
theorem put_of_envFileStep (hwalk : p.files.walk here envDirectory = .ok (.existing E .directory))
    (h : envFileStep here envDirectory c env p = (q, none)) :
    p.files.at? (envLocation E c) ≠ some .directory ∧
      q.files = p.files.put (envLocation E c) (.text (EnvFile.render env)) := by
  unfold envFileStep at h
  cases hwrite : p.files.writeText here (envFileOf envDirectory c) (EnvFile.render env) with
  | error fault => simp [hwrite] at h
  | ok files =>
    simp only [hwrite, Prod.mk.injEq, and_true] at h
    subst h
    exact put_of_writeText (resolve_envFileOf c hwalk) hwrite

/-- Env files have been written to the directory at `E`, and nothing else has changed. -/
structure WritesEnvFiles (E : Location) (envs : List (Component × Environment))
    (fs fs' : FileSystem) : Prop where
  directories : KeepsDirectories fs fs'
  written : ∀ ce ∈ envs, fs'.at? (envLocation E ce.1) = some (.text (EnvFile.render ce.2))
  others (l : Location) (h : ∀ ce ∈ envs, l ≠ envLocation E ce.1) : fs'.at? l = fs.at? l

/-- Writing env files leaves one for each component. -/
theorem takeSteps_envFiles {envs : List (Component × Environment)}
    (hwalk : p.files.walk here envDirectory = .ok (.existing E .directory))
    (hnodup : (envs.map (·.1)).Nodup)
    (h : takeSteps (envs.map fun (c, env) => envFileStep here envDirectory c env) p =
      (q, none)) :
    WritesEnvFiles E envs p.files q.files := by
  induction envs generalizing p with
  | nil =>
    cases h
    exact ⟨.refl _, List.forall_mem_nil _, fun _ _ => rfl⟩
  | cons ce envs ih =>
    obtain ⟨c, env⟩ := ce
    rw [List.map_cons, List.nodup_cons] at hnodup
    obtain ⟨m, hstep, hrest⟩ := takeSteps_cons_iff.mp h
    obtain ⟨hno, hput⟩ := put_of_envFileStep hwalk hstep
    -- a file is never put in place of the directory that the later files go to
    have hkeeps : KeepsDirectories p.files m.files := by
      rw [hput]
      exact .put hno
    have hroot : envLocation E c ≠ [] := by simp [envLocation]
    have hwrites := ih (hkeeps.walk hwalk) hnodup.2 hrest
    have hlater : ∀ ce ∈ envs, envLocation E c ≠ envLocation E ce.1 := by
      intro ce hce heq
      have hmem : ce.1 ∈ envs.map (·.1) := List.mem_map_of_mem hce
      rw [← envLocation_injective E heq] at hmem
      exact hnodup.1 hmem
    refine ⟨hkeeps.trans hwrites.directories, List.forall_mem_cons.mpr ⟨?_, hwrites.written⟩,
      fun l hl => ?_⟩
    · -- no later file takes the place of this one
      rw [hwrites.others _ hlater, hput, at?_put _ hroot, if_pos rfl]
    · rw [List.forall_mem_cons] at hl
      rw [hwrites.others l hl.2, hput, at?_put _ hroot, if_neg hl.1]

/-! ## All steps -/

variable {w run : Workflow} {directory : Path} {done : Progress}

/-- The steps before the first directory is created change no entry. -/
private theorem keepsFiles_firstSteps (here : Location) (w run : Workflow) (directory : Path) :
    KeepsFiles (takeSteps ([acceptStep w, announceStep run directory,
      inputStep here "scenario_path" run.scenarioPath] ++
      (run.training.loadPath.map (inputStep here "training.load_path")).toList)) := by
  apply takeSteps_keeps
  intro step hstep
  rw [List.mem_append] at hstep
  cases hstep with
  | inl hfirst =>
    revert step
    simp only [List.forall_mem_cons]
    exact ⟨keepsFiles_acceptStep w, keepsFiles_announceStep run directory,
      keepsFiles_inputStep here _ _, List.forall_mem_nil _⟩
  | inr hload =>
    obtain ⟨path, -, rfl⟩ := Option.map_eq_some_iff.mp (Option.mem_toList.mp hload)
    exact keepsFiles_inputStep here _ path

/-- A workflow that is accepted has no problem. -/
theorem problems_of_acceptStep (h : acceptStep w p = (q, none)) : w.problems = [] := by
  unfold acceptStep at h
  cases hvalid : w.validate with
  | error e => simp [hvalid] at h
  | ok => exact Workflow.validate_eq_ok_iff.mp hvalid

/-- Steps that do not fail come to the directories first and to the env files then. -/
theorem exists_stages
    (h : takeSteps (prepareSteps here w run directory envDirectory) p = (done, none)) :
    w.problems = [] ∧ ∃ m m', KeepsEntries p.files m.files ∧
      ((∀ d ∈ run.requiredDirs, d.text ≠ "") →
        ∀ d ∈ run.requiredDirs, m.files.isDirectory here d = true) ∧
      (envDirectory.text ≠ "" → m.files.isDirectory here envDirectory = true) ∧
      takeSteps (run.envByComponent.map fun (c, env) => envFileStep here envDirectory c env) m =
        (m', none) ∧
      done.files = m'.files := by
  unfold prepareSteps at h
  -- from the last step to the first
  obtain ⟨m', hsteps, hfinish⟩ := takeSteps_append_iff.mp h
  obtain ⟨m, hsteps, henvFiles⟩ := takeSteps_append_iff.mp hsteps
  obtain ⟨m₂, hsteps, henvStep⟩ := takeSteps_append_iff.mp hsteps
  obtain ⟨m₁, hfirst, hrequired⟩ := takeSteps_append_iff.mp hsteps
  obtain ⟨m₀, haccept, -⟩ := takeSteps_cons_iff.mp hfirst
  obtain ⟨m'', henvDirectory, hlast⟩ := takeSteps_cons_iff.mp henvStep
  cases hlast
  have hkeepsFirst := (keepsFiles_firstSteps here w run directory).keepsEntries hfirst
  have hkeepsRequired := (keepsFiles_requiredDirSteps here run.requiredDirs).keepsEntries hrequired
  have hkeepsLast := (keepsFiles_directoryStep here envDirectory).keepsEntries henvDirectory
  refine ⟨problems_of_acceptStep haccept, m, m',
    (hkeepsFirst.trans hkeepsRequired).trans hkeepsLast, fun hne d hd => ?_, fun hne => ?_,
    henvFiles, ?_⟩
  · have hdirectory := isDirectory_of_requiredDirSteps hne hrequired d hd
    exact hkeepsLast.keepsDirectories.isDirectory hdirectory
  · exact isDirectory_of_directoryStep hne henvDirectory
  · -- the last step says something
    obtain ⟨m'', hsay, hlast⟩ := takeSteps_cons_iff.mp hfinish
    cases hsay
    cases hlast
    rfl

/-! ## The command -/

/-- A run of `prepare` sees the variables of the env file. -/
theorem run_eq_prepare {host : Host} {arguments : List String} {i : Invocation} {s : Selection}
    {directory envDirectory : Option Path} (hread : Invocation.read arguments = .ok i)
    (hrequest : i.request = .prepare s directory envDirectory) :
    Command.run host arguments =
      prepare host.withEnvFile i.verbose s directory envDirectory := by
  rw [Command.run, hread]
  show i.perform host.withEnvFile = _
  rw [Invocation.perform, hrequest]

end Command

end RunPlan
