/-!
# Environments

An environment maps variable names to values. It is kept as a list of pairs in
ascending order of names, so that equal maps are equal lists and rendering needs no
sorting. Names are ordered by code points.
-/

namespace RunPlan

/-- Variables in ascending order of their names, no name twice. -/
abbrev Environment := List (String × String)

namespace Environment

/-- No variable at all. -/
def empty : Environment :=
  []

/-- The value of a variable. -/
def get? (env : Environment) (name : String) : Option String :=
  env.lookup name

/-- Whether a variable is set. -/
def contains (env : Environment) (name : String) : Bool :=
  env.any fun (key, _) => key == name

/-- Sets a variable, replacing its value. -/
def set (name value : String) : Environment → Environment
  | [] => [(name, value)]
  | (key, old) :: rest =>
    if name = key then (name, value) :: rest
    else if name < key then (name, value) :: (key, old) :: rest
    else (key, old) :: set name value rest

/-- Sets a variable when there is a value for it. -/
def setOption (name : String) (value : Option String) (env : Environment) : Environment :=
  match value with
  | some v => env.set name v
  | none => env

/-- The map of a list of pairs; the last value of a name counts. -/
def ofPairs (pairs : List (String × String)) : Environment :=
  pairs.foldl (fun env (name, value) => env.set name value) empty

/-- Sets each variable that is not set yet, and counts them. -/
def applyPairs (env : Environment) (pairs : List (String × String)) : Environment × Nat :=
  pairs.foldl
    (fun (env, count) (name, value) =>
      if env.contains name then (env, count) else (env.set name value, count + 1))
    (env, 0)

end Environment

end RunPlan
