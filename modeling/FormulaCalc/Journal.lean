import FormulaCalc.Expr.Build
/-!
# Journal

What the calculator reports about its work: rejected texts, inserted products, and changes of the
registry.  An event is kept as data; its severity and wording are functions of it.
-/

namespace FormulaCalc

/-- The severities of events. -/
inductive Severity where
  | debug
  | info
  | error
deriving DecidableEq

/-- The name of a severity. -/
def Severity.name : Severity → String
  | debug => "DEBUG"
  | info => "INFO"
  | error => "ERROR"

/-- Something worth reporting. -/
inductive Event where
  /-- A text is no well-formed equation. -/
  | rejected (text : List Char)
  /-- A star was put in front of a position of the text. -/
  | starInserted (position : Nat)
  /-- A well-formed text could not be built. -/
  | notBuilt (text : List Char) (error : BuildError)
  | registered (letter : Char) (slot : Nat)
  | forgotten (letter : Char) (slot : Nat)
deriving DecidableEq

namespace Event

/-- The severity of an event. -/
def severity : Event → Severity
  | rejected _ | starInserted _ => .debug
  | notBuilt _ _ => .error
  | registered _ _ | forgotten _ _ => .info

/-- The wording of an event. -/
def message : Event → String
  | rejected text => "équation rejetée par la validation: " ++ quoteText text
  | starInserted position => "multiplication implicite insérée à la position " ++ toString position
  | notBuilt text error =>
    "équation validée mais non constructible: " ++ quoteText text ++ ": " ++ error.message
  | registered letter slot =>
    "registre: variable " ++ quoteChar letter ++ " -> slot " ++ toString slot
  | forgotten letter slot =>
    "registre: variable " ++ quoteChar letter ++ " (slot " ++ toString slot ++ ") oubliée"

/-- The line of an event in a journal. -/
def line (event : Event) : String :=
  event.severity.name ++ " " ++ event.message

end Event

end FormulaCalc
