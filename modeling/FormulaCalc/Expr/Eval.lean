import FormulaCalc.Expr.Basic
/-!
# Evaluation

An expression is evaluated on a vector of values, from which a variable reads the value of its
slot, or zero if the vector is too short.  Nothing fails: division by zero and powers outside
their domain follow the floating-point rules of the numbers used.  A quotient `a / b` is computed
as `a * (1 / b)` and so is rounded twice.

The evaluator is generic in the kind of numbers; double and single precision are instances.
-/

namespace FormulaCalc

/-- Numbers that expressions can be evaluated in. -/
class Arithmetic (α : Type) where
  zero : α
  one : α
  /-- The number nearest to a double. -/
  ofBinary64 : Binary64 → α
  add : α → α → α
  sub : α → α → α
  mul : α → α → α
  div : α → α → α
  pow : α → α → α

instance : Arithmetic Float where
  zero := 0
  one := 1
  ofBinary64 := Binary64.toFloat
  add := Float.add
  sub := Float.sub
  mul := Float.mul
  div := Float.div
  pow := Float.pow

instance : Arithmetic Float32 where
  zero := 0
  one := 1
  ofBinary64 v := v.toFloat.toFloat32
  add := Float32.add
  sub := Float32.sub
  mul := Float32.mul
  div := Float32.div
  pow := Float32.pow

section Eval

variable {α : Type} [Arithmetic α]

/-- The result of an operator. -/
def Operator.apply : Operator → α → α → α
  | add, a, b => Arithmetic.add a b
  | sub, a, b => Arithmetic.sub a b
  | mul, a, b => Arithmetic.mul a b
  | div, a, b => Arithmetic.mul a (Arithmetic.div Arithmetic.one b)
  | pow, a, b => Arithmetic.pow a b

/-- The value of an expression, the values of the variables standing in their slots. -/
def Expr.eval (values : Array α) : Expr → α
  | number value => Arithmetic.ofBinary64 value
  | var slot _ => values[slot]?.getD Arithmetic.zero
  | binary op left right => op.apply (left.eval values) (right.eval values)

end Eval

end FormulaCalc
