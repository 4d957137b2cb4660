import FormulaCalc.Binary64.Basic
/-!
# Expressions

An expression is a number, a variable, or an operator with two operands.  A variable keeps the
slot of its value and the letter it was written with.  There is no node for a negation: `-x` is
the difference `0 - x`, and `asNegation?` recognises that form.
-/

namespace FormulaCalc

/-- The binary operators. -/
inductive Operator where
  | add
  | sub
  | mul
  | div
  | pow
deriving DecidableEq, Repr

/-- The precedence levels of operators, from the loosest to the tightest. -/
inductive Level where
  | sum
  | product
  | power
deriving DecidableEq, Repr

/-- How tightly the operators of a level bind. -/
def Level.rank : Level → Nat
  | sum => 1
  | product => 2
  | power => 3

namespace Operator

/-- The precedence level of an operator. -/
def level : Operator → Level
  | add | sub => .sum
  | mul | div => .product
  | pow => .power

/-- The character of an operator. -/
def symbol : Operator → Char
  | add => '+'
  | sub => '-'
  | mul => '*'
  | div => '/'
  | pow => '^'

/-- The operator written with a character. -/
def ofSymbol? : Char → Option Operator
  | '+' => some add
  | '-' => some sub
  | '*' => some mul
  | '/' => some div
  | '^' => some pow
  | _ => none

@[simp] theorem ofSymbol?_symbol (op : Operator) : ofSymbol? op.symbol = some op := by
  cases op <;> rfl

end Operator

/-- Expressions over numbers and variables. -/
inductive Expr where
  | number (value : Binary64)
  | var (slot : Nat) (letter : Char)
  | binary (op : Operator) (left right : Expr)
deriving DecidableEq

namespace Expr

instance : Inhabited Expr := ⟨.number .zero⟩

/-- The negation of an expression, written as a difference from zero. -/
def negation (e : Expr) : Expr :=
  .binary .sub (.number .zero) e

/-- Whether an expression is a zero of either sign. -/
def isZero : Expr → Bool
  | number value => value.isZero
  | _ => false

/-- The operand of a difference from zero. -/
def asNegation? : Expr → Option Expr
  | binary .sub left right => if left.isZero then some right else none
  | _ => none

/-- The number of nodes. -/
def size : Expr → Nat
  | number _ | var _ _ => 1
  | binary _ left right => 1 + left.size + right.size

/-- The slots and letters of the variables, from left to right and with repetitions. -/
def occurrences : Expr → List (Nat × Char)
  | number _ => []
  | var slot letter => [(slot, letter)]
  | binary _ left right => left.occurrences ++ right.occurrences

/-- Puts a slot at its place in an increasing list, unless it is there. -/
def insertSlot (slot : Nat) : List Nat → List Nat
  | [] => [slot]
  | head :: tail =>
    if slot < head then slot :: head :: tail
    else if slot = head then head :: tail
    else head :: insertSlot slot tail

/-- The slots an expression reads, in increasing order and each once. -/
def slots (e : Expr) : List Nat :=
  (e.occurrences.map Prod.fst).foldr insertSlot []

/-- Equality up to the sign of zeros: numbers are compared by value, all else exactly. -/
def numericEq : Expr → Expr → Bool
  | number a, number b => a.numericEq b
  | var slot letter, var slot' letter' => slot = slot' && letter = letter'
  | binary op left right, binary op' left' right' =>
    op = op' && left.numericEq left' && right.numericEq right'
  | _, _ => false

theorem mem_insertSlot {slot s : Nat} {slots : List Nat} :
    s ∈ insertSlot slot slots ↔ s = slot ∨ s ∈ slots := by
  induction slots with
  | nil => simp [insertSlot]
  | cons head tail ih =>
    simp only [insertSlot]
    split
    · simp
    · split
      · next heq => simp [heq]
      · simp only [List.mem_cons, ih]
        exact or_left_comm

theorem insertSlot_sorted {slot : Nat} {slots : List Nat} (h : slots.Pairwise (· < ·)) :
    (insertSlot slot slots).Pairwise (· < ·) := by
  induction slots with
  | nil => simp [insertSlot]
  | cons head tail ih =>
    obtain ⟨hhead, htail⟩ := List.pairwise_cons.1 h
    simp only [insertSlot]
    split
    · next hlt =>
      refine List.pairwise_cons.2 ⟨fun s hs => ?_, h⟩
      rcases List.mem_cons.1 hs with rfl | hs
      · exact hlt
      · exact Nat.lt_trans hlt (hhead s hs)
    · split
      · exact h
      · refine List.pairwise_cons.2 ⟨fun s hs => ?_, ih htail⟩
        rcases mem_insertSlot.1 hs with rfl | hs
        · omega
        · exact hhead s hs

/-- The slots of an expression are those of its variables. -/
theorem mem_slots {e : Expr} {s : Nat} : s ∈ e.slots ↔ ∃ letter, (s, letter) ∈ e.occurrences := by
  have (slots : List Nat) : s ∈ slots.foldr insertSlot [] ↔ s ∈ slots := by
    induction slots with
    | nil => simp
    | cons head tail ih => simp [mem_insertSlot, ih]
  simp [slots, this]

/-- The slots of an expression are listed in increasing order, each once. -/
theorem slots_sorted (e : Expr) : e.slots.Pairwise (· < ·) := by
  rw [slots]
  induction e.occurrences.map Prod.fst with
  | nil => exact .nil
  | cons head tail ih => exact insertSlot_sorted ih

end Expr

end FormulaCalc
