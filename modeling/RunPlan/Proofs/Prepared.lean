import RunPlan.Proofs.Export
import RunPlan.Proofs.Prepare
import RunPlan.Proofs.Result
import RunPlan.Proofs.Validity

/-!
# What preparing a run leaves behind

A prepared run finds the directories that it writes to, and an env file with the variables of
each of its components. No two of these files are the same, and none of them is the log file,
whatever there was before: the log file stands in the directory that its path leads to, and
the env files stand in a directory below it under the names of their components.

## Key results

- `run_isPrepared`: a run of `prepare` that succeeds prepares the run of its workflow
-/

namespace RunPlan

/-- A path seen from a directory is not empty. -/
theorem Path.text_resolve_ne {base p : Path} (hp : p.text ≠ "") : (base.resolve p).text ≠ "" := by
  unfold Path.resolve Path.join
  split
  · exact hp
  · split
    · exact hp
    · split
      · simp [hp]
      · simp [hp]

namespace Command

open FileSystem

variable {host : Host} {here l : Location} {fs fs' : FileSystem} {w : Workflow}
  {file directory : Path} {name : String}

/-! ## Prepared runs -/

/-- The env file of a component, below the directory of the log file. -/
def envFile (directory : Path) (c : Component) : Path :=
  (directory.child "env").child (c.name ++ ".env")

/-- What is left behind for the workflow `r`, whose paths are followed from `here`. The log file
    is called `name` in `directory`. -/
structure IsPrepared (here : Location) (r : Workflow) (directory : Path) (name : String)
    (o : Outcome) : Prop where
  /-- Every directory that the run writes to is there. -/
  requiredDirs : ∀ d ∈ r.requiredDirs, o.files.isDirectory here d = true
  logDirectory : r.logPath.parent = some directory
  logName : r.logPath.fileName = some name
  logFile : o.files.isFile here (directory.child name) = true
  /-- Each env file holds the variables of its component. -/
  envFiles : ∀ c ∈ r.components,
    o.files.readText here (envFile directory c) = .ok (EnvFile.render (r.componentEnv c))
  /-- The log file and the env files are in different places. -/
  apart : ((directory.child name :: r.components.map (envFile directory)).map
    (o.files.location? here)).Nodup
  /-- The env files are listed, in the order of components. -/
  stdout : o.stdout = textOfLines (r.components.map fun c => (envFile directory c).text)
  ordered : r.components.Pairwise fun c d => c.before d = true

/-! ## Where the files are -/

/-- The files of the run `r`: the log file `name` in the directory at `l`, and the env files in
    the directory `env` there. -/
structure HoldsRun (here : Location) (r : Workflow) (directory : Path) (name : String)
    (l : Location) (fs : FileSystem) : Prop where
  walk_directory : fs.walk here directory = .ok (.existing l .directory)
  walk_env : fs.walk here (directory.child "env") = .ok (.existing (l ++ ["env"]) .directory)
  log : ∃ e, e ≠ .directory ∧ fs.at? (l ++ [name]) = some e
  env : ∀ c ∈ r.components, fs.at? (envLocation (l ++ ["env"]) c) =
    some (.text (EnvFile.render (r.componentEnv c)))

/-- Files of a directory and files of a directory in it are in different places. -/
theorem envLocation_ne (l : Location) (name : String) (c : Component) :
    envLocation (l ++ ["env"]) c ≠ l ++ [name] := by
  intro h
  have hlength := congrArg List.length h
  simp [envLocation] at hlength

namespace HoldsRun

variable {r : Workflow} {c : Component}

/-- The log file is where it was opened. -/
theorem resolve_log (h : HoldsRun here r directory name l fs) (hname : IsEntryName name) :
    ∃ e, e ≠ .directory ∧
      fs.resolve here (directory.child name) = .ok (.existing (l ++ [name]) e) := by
  obtain ⟨e, he, hentry⟩ := h.log
  have hresolve := resolve_child hname h.walk_directory
  rw [target_eq_existing_iff.mpr ⟨rfl, hentry⟩] at hresolve
  exact ⟨e, he, hresolve⟩

/-- Each env file holds the variables of its component. -/
theorem resolve_envFile (h : HoldsRun here r directory name l fs) (hc : c ∈ r.components) :
    fs.resolve here (envFile directory c) = .ok (.existing (envLocation (l ++ ["env"]) c)
      (.text (EnvFile.render (r.componentEnv c)))) := by
  have hresolve := resolve_envFileOf c h.walk_env
  rw [target_eq_existing_iff.mpr ⟨rfl, h.env c hc⟩] at hresolve
  exact hresolve

/-- The log file and the env files are in different places. -/
theorem locations_nodup (h : HoldsRun here r directory name l fs) (hname : IsEntryName name) :
    ((directory.child name :: r.components.map (envFile directory)).map
      (fs.location? here)).Nodup := by
  -- all of them exist, so the locations are compared
  obtain ⟨e, -, hlog⟩ := h.resolve_log hname
  have henv : (r.components.map (envFile directory)).map (fs.location? here) =
      (r.components.map (envLocation (l ++ ["env"]))).map some := by
    rw [List.map_map, List.map_map]
    exact List.map_congr_left fun c hc => location?_eq_some (h.resolve_envFile hc)
  rw [List.map_cons, location?_eq_some hlog, henv, ← List.map_cons]
  apply List.Nodup.map (Option.some_injective _)
  rw [List.nodup_cons]
  constructor
  · intro hmem
    obtain ⟨c, -, hc⟩ := List.mem_map.mp hmem
    exact envLocation_ne l name c hc
  · exact r.components_nodup.map (envLocation_injective _)

/-- The files stay when messages are added to the log file. -/
theorem appendText (h : HoldsRun here r directory name l fs) {text : String}
    (htarget : fs.resolve here file = .ok (fs.target (l ++ [name])))
    (hfiles : (fs.appendText here file text).toOption.getD fs = fs') :
    KeepsDirectories fs fs' ∧ HoldsRun here r directory name l fs' := by
  obtain ⟨e, he, hentry⟩ := h.log
  obtain ⟨⟨e', he', hentry', -⟩, hothers⟩ := at?_of_appendText_log htarget hentry he hfiles
  have hkeeps : KeepsDirectories fs fs' := by
    intro m hm
    have hne : m ≠ l ++ [name] := by
      rintro rfl
      exact he (Option.some.inj (hentry.symm.trans hm))
    rw [hothers m hne, hm]
  refine ⟨hkeeps, hkeeps.walk h.walk_directory, hkeeps.walk h.walk_env, ⟨e', he', hentry'⟩,
    fun c hc => ?_⟩
  rw [hothers _ (envLocation_ne l name c), h.env c hc]

end HoldsRun

/-! ## The steps -/

/-- The directories of a workflow without problems have a name. -/
theorem text_ne_of_mem_requiredDirs (hw : w.problems = []) (base : Path) :
    ∀ d ∈ (w.resolvePaths base).requiredDirs, d.text ≠ "" := by
  intro d hd
  unfold Workflow.requiredDirs at hd
  cases List.mem_append.mp hd with
  | inl hlog =>
    -- an empty parent is left out
    simpa using (Option.filter_eq_some_iff.mp (Option.mem_toList.mp hlog)).2
  | inr hcheckpoint =>
    obtain ⟨c', hc', rfl⟩ := Option.map_eq_some_iff.mp (Option.mem_toList.mp hcheckpoint)
    obtain ⟨c, hc, rfl⟩ := Option.map_eq_some_iff.mp hc'
    have hvalid := ((Workflow.training_isValid hw).checkpointing c hc).path
    apply Path.text_resolve_ne
    intro hempty
    exact absurd hvalid.nonempty (by rw [hempty]; decide)

/-- What a run of `prepare` in a directory has done when it succeeds. -/
theorem exists_of_prepareIn {verbose : Bool} {base : Path} {run : Workflow}
    (hrun : w.resolvePaths base = run) (h : (prepareIn host verbose w base none).code = 0) :
    ∃ opened logFile done,
      openLog host.files host.here run.logPath = (opened, .ok logFile) ∧
      takeSteps (prepareSteps host.here w run base (defaultEnvDirectory run)) ⟨opened, []⟩ =
        (done, none) ∧
      (done.files.appendText host.here logFile
        (renderLog run.main.logging.file done.log)).toOption.getD done.files =
          (prepareIn host verbose w base none).files ∧
      (prepareIn host verbose w base none).stdout =
        textOfLines (run.components.map fun c => (envFileOf (defaultEnvDirectory run) c).text) := by
  unfold prepareIn at h ⊢
  rw [hrun] at h ⊢
  cases hopen : openLog host.files host.here run.logPath with
  | mk opened result =>
    cases result with
    | error f => simp [hopen, Outcome.failure] at h
    | ok logFile =>
      simp only [hopen, Option.getD_none] at h ⊢
      cases htake : takeSteps (prepareSteps host.here w run base (defaultEnvDirectory run))
          ⟨opened, []⟩ with
      | mk done failed =>
        cases failed with
        | some f => simp [htake, Outcome.failure] at h
        | none =>
          simp only
          exact ⟨opened, logFile, done, rfl, htake, rfl, rfl⟩

/-- Writing the env files completes the files of a run. -/
theorem holdsRun_of_takeSteps {m m' : Progress} {e : Entry}
    (hwalk : m.files.walk here directory = .ok (.existing l .directory))
    (hlog : m.files.at? (l ++ [name]) = some e) (he : e ≠ .directory)
    (henv : m.files.isDirectory here (directory.child "env") = true)
    (h : takeSteps (w.envByComponent.map fun (c, env) =>
      envFileStep here (directory.child "env") c env) m = (m', none)) :
    KeepsDirectories m.files m'.files ∧ HoldsRun here w directory name l m'.files := by
  -- the directory of the env files is the one called so
  obtain ⟨E, hE⟩ := isDirectory_iff.mp henv
  have hresolve := resolve_child isEntryName_env hwalk
  obtain ⟨rfl, hdirectory⟩ := target_eq_existing_iff.mp (Except.ok.inj (hresolve.symm.trans hE))
  have hnodup : (w.envByComponent.map (·.1)).Nodup := by
    have hcomponents : w.envByComponent.map (·.1) = w.components := by
      rw [Workflow.envByComponent_eq, List.map_map]
      exact List.map_id w.components
    rw [hcomponents]
    exact w.components_nodup
  have hwrites := takeSteps_envFiles (walk_of_resolve hE) hnodup h
  have hkeeps := hwrites.directories
  refine ⟨hkeeps, hkeeps.walk hwalk, hkeeps.walk (walk_of_resolve hE), ⟨e, he, ?_⟩, fun c hc => ?_⟩
  · rw [hwrites.others _ fun ce _ => (envLocation_ne l name ce.1).symm, hlog]
  · apply hwrites.written (c, w.componentEnv c)
    rw [Workflow.envByComponent_eq]
    exact List.mem_map_of_mem hc

/-- A run of `prepare` in a directory that succeeds leaves a prepared run. -/
theorem isPrepared_of_prepareIn {verbose : Bool} {base : Path}
    (h : (prepareIn host verbose w base none).code = 0) :
    ∃ directory name,
      IsPrepared host.here (w.resolvePaths base) directory name
        (prepareIn host verbose w base none) := by
  generalize hrun : w.resolvePaths base = run
  obtain ⟨opened, logFile, done, hopen, htake, hfiles, hstdout⟩ := exists_of_prepareIn hrun h
  generalize prepareIn host verbose w base none = o at hfiles hstdout
  obtain ⟨directory, name, l, hlog⟩ := exists_opensLog hopen
  obtain ⟨hw, m, m', hkeeps, hrequired, henv, hwrite, hdone⟩ := exists_stages htake
  have hdefault : defaultEnvDirectory run = directory.child "env" := by
    rw [defaultEnvDirectory, hlog.parent_eq]
    rfl
  rw [hdefault] at henv hwrite hstdout
  -- up to the env files all entries stay, and so does the log file
  obtain ⟨e, he, hentry, -⟩ := hlog.entry
  have henvNe := text_ne_of_resolve (resolve_child isEntryName_env hlog.walk_parent)
  obtain ⟨hkeeps', hholds⟩ := holdsRun_of_takeSteps (hkeeps.keepsDirectories.walk hlog.walk_parent)
    (hkeeps _ e hentry) he (henv henvNe) hwrite
  -- at last the messages are written
  rw [hdone] at hfiles
  obtain ⟨hkeeps'', hholds'⟩ := hholds.appendText
    (hlog.resolve_file (hkeeps.keepsDirectories.trans hkeeps')) hfiles
  have hname := (Path.isEntryName_of_fileName hlog.name_eq).1
  obtain ⟨e', he', hlogFile⟩ := hholds'.resolve_log hname
  refine ⟨directory, name, ?_, hlog.parent_eq, hlog.name_eq, isFile_eq_true he' hlogFile,
    fun c hc => readText_eq_ok (hholds'.resolve_envFile hc), hholds'.locations_nodup hname,
    hstdout, run.components_pairwise⟩
  intro d hd
  have hne := text_ne_of_mem_requiredDirs hw base
  rw [hrun] at hne
  exact (hkeeps'.trans hkeeps'').isDirectory (hrequired hne d hd)

/-- A run of `prepare` that succeeds, with env files next to the log file, leaves a prepared
    run of its workflow. -/
theorem run_isPrepared {arguments : List String} {i : Invocation} {s : Selection}
    {base : Option Path} (hread : Invocation.read arguments = .ok i)
    (hrequest : i.request = .prepare s base none)
    (hsuccess : (Command.run host arguments).code = 0) :
    ∃ p w directory name, s.file host.withEnvFile = .ok p ∧
      s.read host.withEnvFile p = .ok w ∧
      IsPrepared host.here (w.resolvePaths (base.getD host.directory)) directory name
        (Command.run host arguments) := by
  rw [run_eq_prepare hread hrequest] at hsuccess ⊢
  unfold prepare at hsuccess ⊢
  cases hfile : s.file host.withEnvFile with
  | error f => simp [hfile, Outcome.failure] at hsuccess
  | ok p =>
    cases hw : s.read host.withEnvFile p with
    | error f => simp [hfile, hw, Outcome.failure] at hsuccess
    | ok w =>
      simp only [hfile, hw, Host.withEnvFile_directory] at hsuccess ⊢
      obtain ⟨directory, name, hprepared⟩ := isPrepared_of_prepareIn hsuccess
      rw [Host.withEnvFile_here] at hprepared
      exact ⟨p, w, directory, name, rfl, hw, hprepared⟩

/-- A run is prepared in place of an older one. -/
theorem run_isPrepared_again :
    let text := "job: j\nscenario_path: s\nlog_path: log/l\n"
    let files : FileSystem := ⟨[(["w.yml"], .text text), (["log"], .directory),
      (["log", "env"], .directory), (["log", "env", "main.env"], .text "JOB=i\n")]⟩
    let host : Host := ⟨files, ⟨"/"⟩, []⟩
    let s : Selection := ⟨some ⟨"w.yml"⟩, true⟩
    Invocation.read ["prepare", "w.yml"] = .ok ⟨.prepare s none none, false⟩ ∧
      (Command.run host ["prepare", "w.yml"]).code = 0 ∧
      ∃ p w directory name, s.file host.withEnvFile = .ok p ∧
        s.read host.withEnvFile p = .ok w ∧
        IsPrepared host.here (w.resolvePaths host.directory) directory name
          (Command.run host ["prepare", "w.yml"]) := by
  intro text files host s
  have hread : Invocation.read ["prepare", "w.yml"] = .ok ⟨.prepare s none none, false⟩ :=
    eq_ok_of_toOption (by decide +kernel)
  have hsuccess : (Command.run host ["prepare", "w.yml"]).code = 0 := by decide +kernel
  exact ⟨hread, hsuccess, run_isPrepared hread rfl hsuccess⟩

end Command

end RunPlan
