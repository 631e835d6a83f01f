import RunPlan.Text.Case

/-!
# Log levels

The verbosity thresholds of a `logging` section, from the most to the least talkative.
-/

namespace RunPlan

/-- A verbosity threshold. -/
inductive LogLevel where
  | debug
  | info
  | warn
  | error
deriving DecidableEq, Repr, Inhabited

namespace LogLevel

/-- The levels in ascending order. -/
def all : List LogLevel :=
  [debug, info, warn, error]

/-- The place in the order. -/
def rank : LogLevel → Nat
  | debug => 0
  | info => 1
  | warn => 2
  | error => 3

/-- The name in documents and environments. -/
def name : LogLevel → String
  | debug => "DEBUG"
  | info => "INFO"
  | warn => "WARN"
  | error => "ERROR"

/-- The name as a filter directive. -/
def filterName : LogLevel → String
  | debug => "debug"
  | info => "info"
  | warn => "warn"
  | error => "error"

/-- Whether a sink with this threshold shows a message of the given level. -/
def shows (threshold level : LogLevel) : Bool :=
  threshold.rank ≤ level.rank

/-- The level a document names. `WARNING` is accepted for `WARN`. -/
def ofName? : String → Option LogLevel
  | "DEBUG" => some debug
  | "INFO" => some info
  | "WARN" | "WARNING" => some warn
  | "ERROR" => some error
  | _ => none

/-- The level named in any letter case, or a message that shows the name in upper case. -/
def parse (text : String) : Except String LogLevel :=
  let upper := Text.toUpper text
  match ofName? upper with
  | some level => .ok level
  | none =>
    .error ("unknown log level '" ++ upper ++ "', expected one of: DEBUG, INFO, WARN, ERROR")

end LogLevel

end RunPlan
