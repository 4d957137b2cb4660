import FormulaCalc.Expr.Print
import FormulaCalc.ImplicitProduct
import FormulaCalc.Journal
import FormulaCalc.Validity
/-!
# Equations

From a text to an expression: the text must be well formed, implicit products are written out, and
the expression of the result is built.  `parse` does this and reports it in a journal; `explain`
does the same and returns the texts of the steps, or the reason why there is no expression.
-/

namespace FormulaCalc

namespace Equation

/-- The expression of a text with the events on the way to it. -/
def parse (table : VarTable) (text : List Char) : Option Expr × List Event :=
  if Validity.isValid table text then
    let events := (ImplicitProduct.starPositions table text).map .starInserted
    match Expr.build table (ImplicitProduct.insertStars table text) with
    | .ok e => (some e, events)
    | .error error => (none, events ++ [.notBuilt text error])
  else (none, [.rejected text])

/-- The expression of a text. -/
def parse? (table : VarTable) (text : List Char) : Option Expr :=
  (parse table text).1

/-- The steps from a text to its expression, as texts. -/
structure Steps where
  tokens : String
  products : String
  tree : String
  note : String
deriving DecidableEq

/-- The steps of a calculation that has not taken place. -/
def Steps.blank : Steps := ⟨"", "", "", ""⟩

/-- Why a text has no expression. -/
inductive Failure where
  | emptyText
  /-- The text is not well formed; its tokens are listed. -/
  | malformed (listing : List Char)
  | notBuilt (error : BuildError)
deriving DecidableEq

/-- The wording of a failure. -/
def Failure.message : Failure → String
  | emptyText => "Entrée vide"
  | malformed listing => "équation invalide (jetons: " ++ String.ofList listing ++ ")"
  | notBuilt error => "erreur interne: " ++ error.message

/-- The remark that names the stages. -/
def stagesNote : String :=
  "Pipeline: jetons → validation → multiplications implicites → arbre → évaluation."

/-- The expression of a text with the steps that led to it. -/
def explain (table : VarTable) (text : List Char) : Except Failure (Expr × Steps) :=
  if text.isEmpty then .error .emptyText
  else if Validity.isValid table text then
    let products := ImplicitProduct.insertStars table text
    match Expr.build table products with
    | .ok e =>
      .ok (e,
        { tokens := String.ofList (Token.listing table text)
          products := String.ofList products
          tree := String.ofList e.display
          note := stagesNote })
    | .error error => .error (.notBuilt error)
  else .error (.malformed (Token.listing table text))

end Equation

end FormulaCalc
