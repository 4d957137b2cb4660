import FormulaCalc.Equation
/-!
# Calculator sessions

The state of a calculator: the entry being typed, the values of the three variables it offers, what
there is to show, and whether the entry field is to take the keyboard focus when the window is drawn
next.

Every operation writes the fields it is about, one by one.  So it is not by its type that a session
never shows an error message beside a result: each operation that writes one output has to write or
clear all the others.
-/

namespace FormulaCalc

/-- The number of variables whose values can be set. -/
def variableCount : Nat := 3

/-- The values of the variables as long as none has been set. -/
def startValues : Vector Binary64 variableCount :=
  Vector.replicate variableCount .zero

/-- What a calculator has to show. -/
structure Outputs where
  /-- The text of the value. -/
  value : String
  /-- The compact form of the expression. -/
  form : String
  /-- The error message. -/
  error : String
  /-- Whether there is a result to read. -/
  isAvailable : Bool
  /-- The steps of the calculation. -/
  steps : Equation.Steps
deriving DecidableEq

/-- The state of a calculator. -/
structure Session extends Outputs where
  entry : List Char
  values : Vector Binary64 variableCount
  wantsFocus : Bool
deriving DecidableEq

namespace Session

/-- An empty entry, zeros, nothing to show, and the focus asked for. -/
def initial : Session where
  entry := []
  values := startValues
  value := ""
  form := ""
  error := ""
  isAvailable := false
  steps := .blank
  wantsFocus := true

instance : Inhabited Session := ⟨initial⟩

/-- Asks for the focus. -/
def askFocus (s : Session) : Session :=
  { s with wantsFocus := true }

/-- Puts a text into the entry field. -/
def setEntry (s : Session) (text : List Char) : Session :=
  { s with entry := text }

/-- Puts a character behind the entry. -/
def insert (s : Session) (c : Char) : Session :=
  { s with entry := s.entry ++ [c], wantsFocus := true }

/-- Removes the last character of the entry. -/
def backspace (s : Session) : Session :=
  { s with entry := s.entry.dropLast, wantsFocus := true }

/-- Empties the entry. -/
def clearEntry (s : Session) : Session :=
  { s with entry := [], wantsFocus := true }

/-- Clears everything that is shown. -/
def clearOutputs (s : Session) : Session :=
  { s with
    value := ""
    form := ""
    error := ""
    isAvailable := false
    steps := .blank
    wantsFocus := true }

/-- Shows an error message, and no result beside it. -/
def fail (s : Session) (message : String) : Session :=
  { s with
    error := message
    value := ""
    form := ""
    isAvailable := false
    steps := .blank
    wantsFocus := true }

/-- Shows a result, and no error message beside it. -/
def present (s : Session) (value form : String) (steps : Equation.Steps) : Session :=
  { s with
    error := ""
    value := value
    form := form
    steps := steps
    isAvailable := true
    wantsFocus := true }

/-- Starts over: the entry and all that is shown are cleared, and the values are set back. -/
def reset (s : Session) : Session :=
  { (s.setEntry []).clearOutputs with
    values := startValues
    wantsFocus := true }

/-- Gives a variable a value; a slot that is not offered and a value that is not finite do nothing. -/
def setValue (s : Session) (slot : Nat) (value : Binary64) : Session :=
  { s with
    values := if value.isFinite then s.values.setIfInBounds slot value else s.values
    wantsFocus := true }

/-- The session once the window has passed on the request for the focus. -/
def drawn (s : Session) : Session :=
  { s with wantsFocus := false }

end Session

end FormulaCalc
