import FormulaCalc.Journal
/-!
# The shared registry

A table of variables that reports its changes: one event for every letter that is registered and
one for every letter that is taken out, and none where nothing changes.
-/

namespace FormulaCalc

/-- A table of variables with the events of its changes, oldest first. -/
structure Registry where
  table : VarTable
  journal : List Event

namespace Registry

/-- The registry a calculator starts with. -/
def initial : Registry := ⟨.initial, []⟩

/-- Gives a letter a slot; the result is the slot it had before. -/
def register (registry : Registry) (letter : Char) (slot : Nat) :
    Except VarTable.NameError (Option Nat) × Registry :=
  match registry.table.register letter slot with
  | .ok (previous, table) =>
    (.ok previous, ⟨table, registry.journal ++ [.registered letter slot]⟩)
  | .error error => (.error error, registry)

/-- Takes a letter out; the result is the slot it had. -/
def forget (registry : Registry) (letter : Char) : Option Nat × Registry :=
  let (previous, table) := registry.table.forget letter
  (previous, ⟨table, registry.journal ++ (previous.toList.map (.forgotten letter))⟩)

/-- The same table with an empty journal. -/
def withoutJournal (registry : Registry) : Registry :=
  ⟨registry.table, []⟩

end Registry

end FormulaCalc
