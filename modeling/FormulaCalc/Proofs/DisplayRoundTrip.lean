import FormulaCalc.Expr.Eval
import FormulaCalc.Proofs.Spelling
/-!
# Reading displayed expressions

The displayed form of an expression is read back as this expression (`parse_display`), for every
expression whose numbers are finite and whose variables are in the table.

The displayed form of an operand spells an atom, whatever its shape: this is what the brackets
around negative numbers and around operators are for.  So nothing has to be known of the text around
it.
-/

namespace FormulaCalc

theorem isNumeral_render
    (d : Decimal) :
    IsNumeral d.render := by
  exact exists_decimal_read?_iff.1 ⟨d, Decimal.read?_render d⟩

/-- The text of a finite number is a numeral, behind a minus sign where the sign bit is set. -/
theorem exists_numeral_of_isFinite
    {v : Binary64}
    (h : v.isFinite) :
    ∃ n, IsNumeral n ∧ v.render = if v.negative then '-' :: n else n := by
  refine ⟨(Decimal.shortest v.magnitude).render, isNumeral_render _, ?_⟩
  rw [Binary64.render, Binary64.isNaN_eq_false h, h]
  rfl

namespace Expr

/-- Whether the numbers are finite and the variables stand for their slots in the table. -/
def isOver (table : VarTable) : Expr → Bool
  | number value => value.isFinite
  | var slot letter => table.slotOf? letter = some slot
  | binary _ left right => left.isOver table && right.isOver table

section Display

open Validity ImplicitProduct

variable {table : VarTable}

theorem display_binary
    (op : Operator) (left right : Expr) :
    (binary op left right).display =
      '(' :: (left.display ++ op.symbol :: right.display) ++ [')'] := by
  rfl

theorem display_number_of_negative
    {v : Binary64} {n : List Char}
    (hsign : v.negative = true)
    (hrender : v.render = if v.negative then '-' :: n else n) :
    (number v).display = '(' :: ('-' :: n) ++ [')'] := by
  rw [display, hrender, hsign]
  rfl

theorem display_number_of_not_negative
    {v : Binary64} {n : List Char}
    (hsign : v.negative = false)
    (hrender : v.render = if v.negative then '-' :: n else n) :
    (number v).display = n := by
  rw [display, hrender, hsign]
  rfl

/-- **A displayed expression spells an atom of the grammar of levels.** -/
theorem spells_display
    {e : Expr}
    (h : e.isOver table) :
    Spells table none e.display e := by
  induction e with
  | number v =>
      obtain ⟨n, hn, hrender⟩ := exists_numeral_of_isFinite h
      have hread := Binary64.read?_render h
      cases hsign : v.negative with
      | true =>
          rw [hrender, hsign] at hread
          rw [display_number_of_negative hsign hrender]
          exact .bracketed (.minusNumeral hn hread)
      | false =>
          rw [hrender, hsign] at hread
          rw [display_number_of_not_negative hsign hrender]
          exact .numeral hn hread
  | var slot letter =>
      exact .letter (of_decide_eq_true h)
  | binary op left right ihl ihr =>
      obtain ⟨hl, hr⟩ := Bool.and_eq_true_iff.1 h
      have hleft : Spells table op.level.operand left.display left :=
        (ihl hl).loosen (tightness_le_four _)
      have hright : Spells table (some op.level) right.display right :=
        (ihr hr).loosen (tightness_le_four _)
      rw [display_binary]
      exact .bracketed (hleft.chain hright).whole

/-- As a whole text a displayed expression is well formed, and rewriting leaves it as it is. -/
theorem starred_display
    {e : Expr}
    (h : e.isOver table) :
    Starred table .group e.display e.display := by
  exact (spells_display h).whole.written

theorem sum_display
    {e : Expr}
    (h : e.isOver table) :
    Phrase table (some .sum) true e.display e := by
  exact (spells_display h).whole.phrase

end Display

end Expr

namespace Equation

open Validity ImplicitProduct

/--
The displayed form of an expression is valid and has no product left out; it is read as the same
expression, which has therefore the same value on every vector and in every arithmetic.
-/
theorem parse_display
    (table : VarTable) (e : Expr)
    (h : e.isOver table) :
    isValid table e.display = true ∧
      starPositions table e.display = [] ∧
      insertStars table e.display = e.display ∧
      parse table e.display = (some e, []) ∧
      ∀ (α : Type) [Arithmetic α] (values : Array α),
        (parse? table e.display).map (Expr.eval values) = some (e.eval values) := by
  have hstarred := Expr.starred_display h
  have hvalid : isValid table e.display = true := accepts_of_group hstarred.wellFormed
  have hstars := insertStars_of_starred hstarred
  have hpositions := starPositions_eq_nil hstars
  have hbuild : Expr.build table (insertStars table e.display) = .ok e := by
    rw [hstars]
    exact Expr.build_of_sum (Expr.sum_display h)
  have hparse : parse table e.display = (some e, []) := by
    rw [parse_of_build hvalid hbuild, hpositions]
    rfl
  refine ⟨hvalid, hpositions, hstars, hparse, ?_⟩
  intro α _ values
  rw [parse?, hparse]
  rfl

/-- Zero with a sign, a negative number and both directions of chains in one expression. -/
def signedChain : Expr :=
  .binary .sub
    (.binary .sub
      (.number (-.zero))
      (.binary .pow (.number (.ofBits 0xbff8000000000000)) (.var 0 'x')))
    (.binary .div (.var 1 'y') (.binary .div (.var 2 'z') (.number .zero)))

theorem parse_display_signedChain :
    signedChain.isOver .initial ∧
      parse .initial signedChain.display = (some signedChain, []) := by
  have hover : signedChain.isOver .initial := by
    decide
  exact ⟨hover, (parse_display .initial signedChain hover).2.2.2.1⟩

end Equation

end FormulaCalc
