import RunPlan.Settings.Override

/-!
# Orders of tables

The tables that settings are kept in have no order of their own. Whoever goes through one
meets its entries in some order, which need not be the order of the document, nor the same
for another table or in another reading. A `TableOrder` is such an order for the tables of
a tree; an `Order` has one for everything that a reading goes through.

The order matters where two keys are for one setting, such as `job` and `JOB`: the one that
comes later counts. `Order.written` goes by what is written first, which is a choice.
-/

namespace RunPlan.Settings

/-- An order of the entries of each table in a tree. A table is known by the way to it:
the keys, and the places in lists, innermost first. -/
structure TableOrder where
  entries : List Value → List (Value × Value) → List (Value × Value)
  perm (way : List Value) (table : List (Value × Value)) : (entries way table).Perm table

namespace TableOrder

/-- The order in which entries are written. -/
def written : TableOrder where
  entries _ table := table
  perm _ _ := .rfl

mutual

/-- A tree with the entries of its tables in order. -/
def tree (order : TableOrder) (way : List Value) : Value → Value
  | .sequence items => .sequence (order.items way 0 items)
  | .mapping table => .mapping (order.entries way (order.table way table))
  | v => v

/-- Items from a place on, with the entries of the tables in them in order. -/
def items (order : TableOrder) (way : List Value) (place : Nat) : List Value → List Value
  | [] => []
  | v :: vs => order.tree (.int place :: way) v :: order.items way (place + 1) vs

/-- Entries as they are written, with those of the tables in them in order. -/
def table (order : TableOrder) (way : List Value) :
    List (Value × Value) → List (Value × Value)
  | [] => []
  | (key, v) :: rest => (key, order.tree (key :: way) v) :: order.table way rest

end

end TableOrder

/-- The order in which a reading goes through the tables of a document, through the
variables, and through the tables of the merged settings. -/
structure Order where
  document : TableOrder
  environment : List (String × String) → List (String × String)
  environment_perm (overrides : List (String × String)) : (environment overrides).Perm overrides
  merged : TableOrder

namespace Order

/-- Everything as it is written. -/
def written : Order where
  document := .written
  environment overrides := overrides
  environment_perm _ := .rfl
  merged := .written

/-- The entries of a document in order. -/
def entries (order : Order) (document : List (Value × Value)) : List (Value × Value) :=
  order.document.entries [] (order.document.table [] document)

end Order

/-- The settings of a document with an environment over it, when both are gone through in
an order. -/
def layeredIn (order : Order) (document : List (Value × Value))
    (overrides : List (String × String)) : Value :=
  order.merged.tree [] (layered (order.entries document) (order.environment overrides))

end RunPlan.Settings
