import FormulaCalc.Decimal.Shortest
import FormulaCalc.Expr.Basic
/-!
# Two written forms of expressions

`display` puts brackets around every operator and every number with a minus sign.

`compact` puts brackets only where leaving them out would change how the text is split.  A text is
split at the first operator of its loosest level, so an operator needs brackets around an operand
of a looser level, and around a left operand of its own level.  A negation is written with a sign
in front of a letter or of a number without sign, and as a difference from zero otherwise; like a
number with a minus sign, it stands in brackets unless it is the whole text.
-/

namespace FormulaCalc

namespace Expr

/-- A text between brackets, where they are asked for. -/
def bracketIf (wanted : Bool) (text : List Char) : List Char :=
  if wanted then '(' :: (text ++ [')']) else text

/-- The fully bracketed form. -/
def display : Expr → List Char
  | number value => bracketIf value.negative value.render
  | var _ letter => [letter]
  | binary op left right => bracketIf true (left.display ++ op.symbol :: right.display)

/-- Whether an expression is a letter or a number without sign, so that a sign can precede it. -/
def isUnsignedAtom : Expr → Bool
  | number value => !value.negative
  | var _ _ => true
  | binary _ _ _ => false

/-- How tightly an expression binds: as its operator does, negations and atoms tightest of all. -/
def rank (e : Expr) : Nat :=
  if e.asNegation?.isSome then 4
  else match e with
    | binary op _ _ => op.level.rank
    | number _ | var _ _ => 4

/-- The compact form, as a whole text or as an operand. -/
def compactAs (whole : Bool) : Expr → List Char
  | number value => bracketIf (value.negative && !whole) value.render
  | var _ letter => [letter]
  | binary op left right =>
    if (binary op left right).asNegation?.isSome then
      bracketIf (!whole) <|
        if right.isUnsignedAtom then '-' :: right.compactAs false
        else '0' :: '-' :: bracketIf (right.rank < Level.product.rank) (right.compactAs false)
    else
      bracketIf (left.rank ≤ op.level.rank) (left.compactAs false)
        ++ op.symbol :: bracketIf (right.rank < op.level.rank) (right.compactAs false)

/-- The form with as few brackets as its parts need. -/
def compact (e : Expr) : List Char :=
  e.compactAs true

end Expr

end FormulaCalc
