import RunPlan.Proofs.ResolvedEnvironment

/-!
# Log files of components

The log files of a run stand in one directory, next to each other. Their names are put together
from texts that can hold dots themselves: the two sides of the name of `log_path`, which is
split at its last dot, and the name of a component. The proofs use that both sides are the same
for all components, so that log files differ where the names of components do
(`exists_logName_eq`), and that what follows the last dot stays there
(`extension_logName`).

## Key results

- `Path.logName_injective`, `Path.logName_ne`: log files next to each other have names of
  their own
- `Workflow.fileName_logFile_injective`: a log file tells which component it is of
- `Workflow.logFiles_spec`: log files never clash and have a home
-/

namespace RunPlan

/-! ## Names of log files -/

namespace Path

variable {name ending : String}

/-- The name of a component stands between two texts that do not depend on it, and which are
    the name of the log file that all are made from. -/
theorem exists_logName_eq (name : String) :
    ∃ stem ending, name = stem ++ ending ∧
      ∀ c : Component, logName name c = stem ++ "." ++ c.name ++ ending := by
  rcases splitName_cases name with h | ⟨stem, ending, -, -, hname, h⟩
  · refine ⟨name, "", String.append_empty.symm, fun c => ?_⟩
    rw [logName, h]
  · refine ⟨stem, "." ++ ending, by rw [hname, String.append_assoc], fun c => ?_⟩
    rw [logName, h]

/-- No two components have log files of one name. -/
theorem logName_injective (name : String) : Function.Injective (logName name) := by
  intro c d h
  obtain ⟨stem, ending, -, hlog⟩ := exists_logName_eq name
  rw [hlog, hlog] at h
  have hnames : c.name = d.name :=
    (String.append_right_inj (stem ++ ".")).mp ((String.append_left_inj ending).mp h)
  exact Component.name_injective hnames

/-- The log file of a component is not the one that it is made from. -/
theorem logName_ne (name : String) (c : Component) : logName name c ≠ name := by
  intro h
  obtain ⟨stem, ending, hname, hlog⟩ := exists_logName_eq name
  have hlength := congrArg String.length h
  rw [hlog, hname] at hlength
  simp only [String.length_append, show ".".length = 1 from rfl] at hlength
  omega

/-- The name of a log file contains the name of its component. -/
theorem name_infix_logName (name : String) (c : Component) :
    c.name.toList <:+: (logName name c).toList := by
  obtain ⟨stem, ending, -, hlog⟩ := exists_logName_eq name
  refine ⟨(stem ++ ".").toList, ending.toList, ?_⟩
  rw [hlog, ← String.toList_append, ← String.toList_append]

/-- The name of a component ends before the last dot of a name that is split. -/
theorem extension_logName (h : (splitName name).2 = some ending) (c : Component) :
    (splitName (logName name c)).2 = some ending := by
  rcases splitName_cases name with hsplit | ⟨stem, other, hstem, hother, -, hsplit⟩
  · rw [hsplit] at h
    cases h
  · rw [hsplit] at h
    obtain rfl : other = ending := Option.some.inj h
    have hlog : logName name c = stem ++ "." ++ c.name ++ "." ++ other := by
      rw [logName, hsplit]
      exact String.append_assoc.symm
    have hne : stem ++ "." ++ c.name ≠ "" := by simp
    rw [hlog, splitName_append hne hother]

end Path

/-! ## Log files of a workflow -/

namespace Workflow

variable {w : Workflow} {name : String} {c d : Component}

/-- The name of the log file of a component other than the main one. -/
theorem fileName_logFile (h : w.logPath.fileName = some name) (hc : c ≠ .main) :
    (w.logFile c).fileName = some (Path.logName name c) := by
  rw [logFile_eq h hc]
  exact Path.fileName_withFileName (Path.isEntryName_logName (Path.isEntryName_of_fileName h).1 c) h

/-- The name of a log file tells which component it is of. -/
theorem fileName_logFile_injective (h : w.logPath.fileName = some name) :
    Function.Injective fun c => (w.logFile c).fileName := by
  have hmain (c : Component) (hc : c ≠ .main) :
      (w.logFile c).fileName ≠ (w.logFile .main).fileName := by
    rw [fileName_logFile h hc, show w.logFile .main = w.logPath from rfl, h]
    exact fun heq => Path.logName_ne name c (Option.some.inj heq)
  intro c d heq
  by_cases hc : c = .main
  · by_cases hd : d = .main
    · rw [hc, hd]
    · subst hc
      exact absurd heq.symm (hmain d hd)
  · by_cases hd : d = .main
    · subst hd
      exact absurd heq (hmain c hc)
    · have hnames : Path.logName name c = Path.logName name d := by
        rw [← Option.some.injEq, ← fileName_logFile h hc, ← fileName_logFile h hd]
        exact heq
      exact Path.logName_injective name hnames

/-- All log files are in the directory of `log_path`. -/
theorem parent_logFile (h : w.logPath.fileName = some name) (c : Component) :
    (w.logFile c).parent = w.logPath.parent := by
  by_cases hc : c = .main
  · rw [hc]
    rfl
  · rw [logFile_eq h hc]
    exact Path.parent_withFileName
      (Path.isEntryName_logName (Path.isEntryName_of_fileName h).1 c) h

/-- Log files keep the extension of `log_path`. -/
theorem extension_logFile (h : w.logPath.fileName = some name) {ending : String}
    (hending : w.logPath.extension = some ending) (c : Component) :
    (w.logFile c).extension = some ending := by
  by_cases hc : c = .main
  · rw [hc]
    exact hending
  · rw [Path.extension, fileName_logFile h hc]
    rw [Path.extension, h] at hending
    exact Path.extension_logName hending c

/-- The directory of `log_path` is made before the run starts, unless that is the one that the
    run starts in. -/
theorem parent_mem_requiredDirs {dir : Path} (h : w.logPath.parent = some dir) :
    dir.text = "" ∨ dir ∈ w.requiredDirs := by
  by_cases hdir : dir.text = ""
  · exact Or.inl hdir
  · right
    rw [requiredDirs, h]
    simp [hdir]

/-- What a path is as the log file of a component. -/
structure IsLogFile (w : Workflow) (c : Component) (log : Path) : Prop where
  /-- It is in the directory of `log_path`. -/
  beside : log.parent = w.logPath.parent
  /-- This directory is the one that the run starts in, or one that is made for it. -/
  home : ∃ dir, log.parent = some dir ∧ (dir.text = "" ∨ dir ∈ w.requiredDirs)
  /-- Its name tells the component. -/
  named : c ≠ .main → ∃ name, log.fileName = some name ∧ c.name.toList <:+: name.toList
  /-- It has the extension of `log_path`. -/
  extension : ∀ ending, w.logPath.extension = some ending → log.extension = some ending

/-- When `log_path` has a file name, no two components write to one path, not even to one that
    is written in another way. Their log files are in the directory of `log_path`, which is
    there when the run starts, and have its extension. Those of components other than the main
    one have the name of the component in their name. -/
theorem logFiles_spec (h : w.logPath.fileName = some name) :
    (∀ c d, c ≠ d → (w.logFile c).parts ≠ (w.logFile d).parts) ∧
      ∀ c, w.IsLogFile c (w.logFile c) := by
  refine ⟨fun c d hne hparts => ?apart, fun c => ⟨parent_logFile h c, ?home, ?named, ?extension⟩⟩
  case apart => exact hne (fileName_logFile_injective h (Path.fileName_congr hparts))
  case home =>
    obtain ⟨-, dir, hdir⟩ := Path.isEntryName_of_fileName h
    exact ⟨dir, (parent_logFile h c).trans hdir, parent_mem_requiredDirs hdir⟩
  case named =>
    intro hc
    exact ⟨_, fileName_logFile h hc, Path.name_infix_logName name c⟩
  case extension =>
    intro ending hending
    exact extension_logFile h hending c

/-- A log file with a name that starts and ends with a dot, which is written with a repeated
    separator and another one at the end. The extension is empty and stays. -/
theorem logFiles_spec_dots :
    let w : Workflow := {
      job := "grid", scenarioPath := ⟨"/scenarios/a.toml"⟩, logPath := ⟨"../log//.run.v2./."⟩ }
    w.logPath.fileName = some ".run.v2." ∧
      w.logFile (.trainWorker 1) = ⟨"../log/.run.v2.train_worker.1."⟩ ∧
      (w.logFile (.trainWorker 1)).parts ≠ (w.logFile (.trainWorker 11)).parts ∧
      (w.logFile (.trainWorker 1)).parent = some ⟨"../log"⟩ ∧
      (w.logFile (.trainWorker 1)).extension = some "" := by
  intro w
  have hname : w.logPath.fileName = some ".run.v2." := by decide
  obtain ⟨hapart, hlog⟩ := logFiles_spec hname
  refine ⟨hname, by decide, hapart _ _ (by decide), ?_, (hlog _).extension "" (by decide)⟩
  exact (hlog _).beside.trans (by decide)

end Workflow

end RunPlan
