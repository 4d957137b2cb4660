import FormulaCalc.Brackets
import FormulaCalc.Decimal.Shortest
import FormulaCalc.Token.Basic
/-!
# Building expressions

An expression is built from a text by splitting: the brackets around a slice are taken off, the
slice is cut at its principal operator, and both halves are built in turn; a slice without operator
is a leaf.  Since the cut is made at the first operator of its level, chains lean to the right:
`10-3-2` is `10-(3-2)`.

A leaf is one letter of the table or a decimal numeral, either with an optional sign in front.
-/

namespace FormulaCalc

/-- Why no expression can be built. -/
inductive BuildError where
  /-- An operand is missing between these positions. -/
  | missingOperand (start stop : Nat)
  /-- A slice has no operator and is no leaf. -/
  | invalidLeaf (text : List Char)
  /-- A letter is not in the table. -/
  | unknownLetter (letter : Char)
deriving DecidableEq

/-- The wording of a build error. -/
def BuildError.message : BuildError → String
  | missingOperand start stop =>
    "sous-expression vide (positions " ++ toString start ++ ".." ++ toString stop ++ ")"
  | invalidLeaf text => "ni opérateur ni feuille valide: " ++ quoteText text
  | unknownLetter letter => "variable absente du registre: " ++ quoteChar letter

namespace Expr

/-- A text without its sign, and whether the sign was a minus. -/
def splitSign : List Char → Bool × List Char
  | '-' :: body => (true, body)
  | '+' :: body => (false, body)
  | body => (false, body)

/--
Reads a numeral with its sign.  Without the sign it may have digits and points only; a reader of
numbers could know other notations, with exponents or words, and these are no leaves.
-/
def numeralLeaf (text body : List Char) : Except BuildError Expr :=
  if body.isEmpty || !body.all Token.isNumeralChar then .error (.invalidLeaf text)
  else
    match Binary64.read? text with
    | some value => .ok (.number value)
    | none => .error (.invalidLeaf text)

/-- Reads a slice without operators: a letter or a numeral, possibly signed. -/
def leaf (table : VarTable) (text : List Char) : Except BuildError Expr :=
  match splitSign text with
  | (negative, [c]) =>
    if c.isAlpha then
      match table.slotOf? c with
      | some slot => .ok (if negative then negation (.var slot c) else .var slot c)
      | none => .error (.unknownLetter c)
    else numeralLeaf text [c]
  | (_, body) => numeralLeaf text body

/-- Builds the expression of a slice. -/
def buildSlice (table : VarTable) (t : BracketedText) (start stop : Nat) :
    Except BuildError Expr :=
  let inner := t.stripOuter start stop
  if inner.2 ≤ inner.1 then .error (.missingOperand inner.1 inner.2)
  else
    match _h : t.principal? inner.1 inner.2 with
    | none => leaf table (t.slice inner.1 inner.2)
    | some (op, position) => do
      let left ← buildSlice table t inner.1 position
      let right ← buildSlice table t (position + 1) inner.2
      return .binary op left right
termination_by stop - start
decreasing_by
  all_goals
    have hbounds := BracketedText.principal?_bounds ‹_›
    have hinner := t.stripOuter_bounds start stop
    simp only [inner] at hbounds
    omega

/-- Builds the expression of a text. -/
def build (table : VarTable) (text : List Char) : Except BuildError Expr :=
  buildSlice table (.ofText text) 0 text.length

end Expr

end FormulaCalc
