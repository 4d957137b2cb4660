import FormulaCalc.Expr.Eval
import FormulaCalc.Session.Basic
import FormulaCalc.Text.Blank
/-!
# Evaluating the entry

The entry is read without the blanks at its ends, and evaluated at the current values.  The note of
a result names the variables that were read, each slot by its alphabetically first letter.
-/

namespace FormulaCalc

/-- The text of a value: words for what is no finite number. -/
def valueText (v : Binary64) : String :=
  if v.isNaN then "indéfini"
  else if v.isFinite then String.ofList v.render
  else if v.negative then "-∞"
  else "+∞"

/-- The double-precision value of an expression, the values standing in their slots. -/
def Expr.value (e : Expr) (values : Array Binary64) : Binary64 :=
  .ofFloat (e.eval (values.map Binary64.toFloat))

/-- The name a slot is shown by. -/
def slotName (table : VarTable) (slot : Nat) : String :=
  match table.letterOf? slot with
  | some letter => letter.toString
  | none => "#" ++ toString slot

/-- The names of the slots an expression reads, or a word for none. -/
def readNames (table : VarTable) (e : Expr) : String :=
  if e.slots.isEmpty then "aucune"
  else ", ".intercalate (e.slots.map (slotName table))

/--
Evaluates the entry at the current values.  There are three ways out: the entry is blank, it is
refused, or it has a value.
-/
def Session.evaluate (table : VarTable) (s : Session) : Session :=
  let text := trimBlanks s.entry
  if text.isEmpty then s.fail "Entrée vide"
  else
    match Equation.explain table text with
    | .ok (e, steps) =>
      s.present (valueText (e.value s.values.toArray)) (String.ofList e.compact)
        { steps with note := steps.note ++ "\nVariables lues : " ++ readNames table e }
    | .error failure => s.fail failure.message

end FormulaCalc
