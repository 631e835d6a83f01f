import RunPlan.Command.Inspect
import RunPlan.Proofs.Export

/-!
# Printed environments are env files

`environment` prints the env files of all components one after the other, each under a comment
with the name of its component and in front of an empty line. Comments and empty lines are
passed over and lines are read each on its own, so the text is read as what the files hold,
whether `export` stands in front of the variables or not.

As in a single file, a line feed in a value breaks the text. The texts of a workflow without
problems hold none apart from its paths; the directory that relative paths are seen from comes
from elsewhere (`parse_environmentText_iff`).

## Key results

- `environmentText_eq`: the lines of a printed environment
- `parse_environmentText`: they are read back when no value holds a line feed
- `parse_environmentText_iff`: the exact condition, for a workflow that is fit to be printed
-/

namespace RunPlan

namespace Command

open Text

variable {w : Workflow} {c : Component}

/-! ## The lines of a printed environment -/

/-- The lines that are printed for a component. -/
def sectionLines (w : Workflow) (exports : Bool) (c : Component) : List (List Char) :=
  ('#' :: ' ' :: c.name.toList) :: EnvFile.renderedLines exports (w.componentEnv c) ++ [[]]

/-- What is printed for a component alone are the lines of its variables. -/
theorem componentText_eq (hvalues : ∀ pair ∈ w.componentEnv c, '\n' ∉ pair.2.toList)
    (exports : Bool) :
    componentText w exports c =
      String.ofList (unlines (EnvFile.renderedLines exports (w.componentEnv c))) := by
  cases exports with
  | false => exact EnvFile.render_eq (w.componentEnv c)
  | true => exact EnvFile.renderExports_eq Workflow.isName_of_mem_componentEnv hvalues

/-- The components are printed one after the other. -/
theorem environmentText_eq
    (hvalues : ∀ c ∈ w.components, ∀ pair ∈ w.componentEnv c, '\n' ∉ pair.2.toList)
    (exports : Bool) :
    environmentText w exports =
      String.ofList (unlines (w.components.flatMap (sectionLines w exports))) := by
  have hsection : ∀ c ∈ w.components,
      ("# " ++ c.name ++ "\n" ++ componentText w exports c ++ "\n").toList =
        unlines (sectionLines w exports c) := by
    intro c hc
    rw [componentText_eq (hvalues c hc)]
    simp [sectionLines, unlines]
  rw [← String.toList_inj, String.toList_ofList, environmentText, String.toList_join,
    List.flatMap_map, List.flatMap_congr hsection, unlines, List.flatMap_assoc]
  rfl

/-- The lines of a component hold no line feeds when no value does. -/
theorem feed_notMem_sectionLines (hvalues : ∀ pair ∈ w.componentEnv c, '\n' ∉ pair.2.toList)
    (exports : Bool) : ∀ line ∈ sectionLines w exports c, '\n' ∉ line := by
  intro line hline
  rw [sectionLines, List.mem_append, List.mem_cons, List.mem_singleton] at hline
  rcases hline with (rfl | hline) | rfl
  · simp [Workflow.feed_notMem_name]
  · have hnames : ∀ pair ∈ w.componentEnv c, '\n' ∉ pair.1.toList :=
      fun pair hpair => (Workflow.isName_of_mem_componentEnv pair hpair).no_feed
    exact EnvFile.feed_notMem_renderedLines hnames hvalues exports line hline
  · exact List.not_mem_nil

/-! ## Reading them -/

/-- The lines of a component are read as its variables. -/
theorem filterMap_sectionLines (w : Workflow) (exports : Bool) (c : Component) :
    (sectionLines w exports c).filterMap EnvFile.readLine = w.componentEnv c := by
  have hempty : EnvFile.readLine [] = none := rfl
  rw [sectionLines, List.cons_append, List.filterMap_cons_none (EnvFile.readLine_comment _),
    List.filterMap_append, EnvFile.filterMap_renderedLines Workflow.isName_of_mem_componentEnv,
    List.filterMap_cons_none hempty, List.filterMap_nil, List.append_nil]

/-- A printed environment is read as the environments of the components, one after the other,
    when no value holds a line feed. -/
theorem parse_environmentText
    (hvalues : ∀ c ∈ w.components, ∀ pair ∈ w.componentEnv c, '\n' ∉ pair.2.toList)
    (exports : Bool) :
    EnvFile.parse (environmentText w exports) = w.components.flatMap w.componentEnv := by
  have hlines : ∀ line ∈ w.components.flatMap (sectionLines w exports), '\n' ∉ line := by
    intro line hline
    obtain ⟨c, hc, hline⟩ := List.mem_flatMap.mp hline
    exact feed_notMem_sectionLines (hvalues c hc) exports line hline
  rw [environmentText_eq hvalues, EnvFile.parse_unlines hlines, List.filterMap_flatMap]
  exact List.flatMap_congr fun c _ => filterMap_sectionLines w exports c

/-- A printed environment that is read as the environments of the components has no line feed
    in a path. -/
theorem feed_notMem_of_parse_environmentText {exports : Bool}
    (h : EnvFile.parse (environmentText w exports) = w.components.flatMap w.componentEnv) :
    ∀ p ∈ w.paths, '\n' ∉ p.text.toList := by
  intro p hp
  obtain ⟨name, hname⟩ := Workflow.exists_mem_componentEnv_main hp
  have hread : (name, p.text) ∈ EnvFile.parse (environmentText w exports) := by
    rw [h]
    exact List.mem_flatMap.mpr ⟨.main, List.mem_cons_self, hname⟩
  exact (EnvFile.feed_notMem_of_mem_parse hread).2

/-! ## Paths seen from a directory -/

/-- The paths of a resolved workflow are its paths, resolved. -/
theorem paths_resolvePaths (w : Workflow) (base : Path) :
    (w.resolvePaths base).paths = w.paths.map base.resolve := by
  unfold Workflow.paths Workflow.resolvePaths
  cases w.training.loadPath <;> cases w.training.checkpointing <;> rfl

/-- The texts of a workflow other than paths are those of the resolved workflow. -/
theorem hasPlainTexts_seenFrom (h : w.HasPlainTexts) (base : Option Path) :
    (seenFrom base w).HasPlainTexts := by
  cases base with
  | none => exact h
  | some p => exact ⟨h.job, h.controller, h.proxy⟩

/-- Line feeds come to paths from the directory that relative ones are seen from. -/
theorem feed_notMem_paths_seenFrom_iff (hpaths : ∀ p ∈ w.paths, '\n' ∉ p.text.toList)
    (base : Option Path) :
    (∀ p ∈ (seenFrom base w).paths, '\n' ∉ p.text.toList) ↔
      ∀ b ∈ base, '\n' ∈ b.text.toList → ∀ p ∈ w.paths, p.isAbsolute = true := by
  cases base with
  | none => simpa [seenFrom] using hpaths
  | some b =>
    have hfeed : ∀ p ∈ w.paths, ('\n' ∉ (b.resolve p).text.toList ↔
        ('\n' ∈ b.text.toList → p.isAbsolute = true)) := by
      intro p hp
      rw [Path.mem_resolve_iff (by decide), or_iff_right (hpaths p hp), not_and_or,
        Bool.not_eq_false, imp_iff_or_not]
    show (∀ p ∈ (w.resolvePaths b).paths, '\n' ∉ p.text.toList) ↔ _
    rw [paths_resolvePaths, List.forall_mem_map, forall₂_congr hfeed]
    simp only [Option.mem_some_iff, forall_eq']
    exact ⟨fun h hb p hp => h p hp hb, fun h p hp hb => h hb p hp⟩

/-- The printed environment of a workflow that has no problems, and no line feeds in its paths,
    is read as the environments of the components, one after the other, with or without
    `export`. The only exception is a directory with a line feed in its name that a relative
    path is seen from. -/
theorem parse_environmentText_iff (h : w.problems = [])
    (hpaths : ∀ p ∈ w.paths, '\n' ∉ p.text.toList) (base : Option Path) (exports : Bool) :
    EnvFile.parse (environmentText (seenFrom base w) exports) =
        (seenFrom base w).components.flatMap (seenFrom base w).componentEnv ↔
      ∀ b ∈ base, '\n' ∈ b.text.toList → ∀ p ∈ w.paths, p.isAbsolute = true := by
  rw [← feed_notMem_paths_seenFrom_iff hpaths]
  constructor
  · exact feed_notMem_of_parse_environmentText
  · intro hseen
    apply parse_environmentText
    intro c _
    have htexts := hasPlainTexts_seenFrom (Workflow.hasPlainTexts_of_problems h) base
    exact Workflow.feed_notMem_of_mem_componentEnv htexts hseen

/-- Two workers and a directory with a blank in its name. -/
theorem parse_environmentText_distributed :
    let w : Workflow := {
      job := "grid", scenarioPath := ⟨"scenario #1"⟩, logPath := ⟨"log/\"run\"=1.txt"⟩
      rollout.parallelism := some {
        sampling := 2, controller := some { host := "node-1", port := 5000 } } }
    let base : Option Path := some ⟨"/my runs"⟩
    w.problems = [] ∧ (∀ p ∈ w.paths, '\n' ∉ p.text.toList) ∧
      (EnvFile.parse (environmentText (seenFrom base w) true) =
          (seenFrom base w).components.flatMap (seenFrom base w).componentEnv ↔
        ∀ b ∈ base, '\n' ∈ b.text.toList → ∀ p ∈ w.paths, p.isAbsolute = true) := by
  intro w base
  have hproblems : w.problems = [] := by decide
  have hpaths : ∀ p ∈ w.paths, '\n' ∉ p.text.toList := by decide
  exact ⟨hproblems, hpaths, parse_environmentText_iff hproblems hpaths base true⟩

/-- A directory with a line feed in its name breaks the text. -/
theorem parse_environmentText_feed :
    let w := Workflow.minimal "job" ⟨"s"⟩ ⟨"l"⟩
    let seen := seenFrom (some ⟨"a\nb"⟩) w
    w.problems = [] ∧ (∀ p ∈ w.paths, '\n' ∉ p.text.toList) ∧
      EnvFile.parse (environmentText seen false) ≠ seen.components.flatMap seen.componentEnv := by
  intro w seen
  refine ⟨by decide, by decide, fun hread => ?_⟩
  have hpath : (⟨"a\nb/s"⟩ : Path) ∈ seen.paths := by decide
  exact feed_notMem_of_parse_environmentText hread _ hpath (by decide)

end Command

end RunPlan
