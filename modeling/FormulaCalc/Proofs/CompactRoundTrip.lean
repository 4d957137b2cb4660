import FormulaCalc.Proofs.MergedSigns
/-!
# Reading compact forms

The compact form of an expression is read back as the expression with its signs merged
(`parse_compact`), for every expression whose numbers are finite and whose variables are in the
table.

Unlike the displayed form, the compact form of an operand need not be an operand of the grammar: it
spells a phrase of the level of its operator, and what brackets there are go by that level.
Negations and numbers with a minus sign spell whole texts only, and get brackets as operands.
-/

namespace FormulaCalc

open Validity ImplicitProduct

theorem render_neg
    {v : Binary64}
    (h : v.isFinite)
    (hsign : v.negative = false) :
    (-v).render = '-' :: v.render := by
  have hneg : (-v).isFinite := h
  rw [Binary64.render, Binary64.isNaN_eq_false hneg, hneg, Binary64.neg_negative, hsign,
    Binary64.render, Binary64.isNaN_eq_false h, h, hsign]
  rfl

/-- The text of a finite number without sign is a numeral. -/
theorem isNumeral_of_not_negative
    {v : Binary64}
    (h : v.isFinite)
    (hsign : v.negative = false) :
    IsNumeral v.render := by
  obtain ⟨n, hn, hrender⟩ := exists_numeral_of_isFinite h
  rw [hsign] at hrender
  rw [hrender]
  exact hn

namespace Expr

section Forms

variable {op : Operator} {left right : Expr}

theorem compactAs_of_negation
    (h : (binary op left right).asNegation?.isSome)
    (whole : Bool) :
    (binary op left right).compactAs whole =
      bracketIf (!whole)
        (if right.isUnsignedAtom then '-' :: right.compactAs false
        else
          '0' :: '-' ::
            bracketIf (right.rank < Level.product.rank) (right.compactAs false)) := by
  rw [compactAs, if_pos h]

theorem compactAs_of_not_negation
    (h : ¬ (binary op left right).asNegation?.isSome)
    (whole : Bool) :
    (binary op left right).compactAs whole =
      bracketIf (left.rank ≤ op.level.rank) (left.compactAs false)
        ++ op.symbol :: bracketIf (right.rank < op.level.rank) (right.compactAs false) := by
  rw [compactAs, if_neg h]

theorem compactAs_unsignedNumber
    {v : Binary64}
    (hsign : v.negative = false)
    (whole : Bool) :
    (number v).compactAs whole = v.render := by
  rw [compactAs, hsign]
  rfl

theorem compactAs_negated_number
    {v : Binary64}
    (h : (binary op left (number v)).asNegation?.isSome)
    (hsign : v.negative = false)
    (whole : Bool) :
    (binary op left (number v)).compactAs whole = bracketIf (!whole) ('-' :: v.render) := by
  rw [compactAs_of_negation h, isUnsignedAtom, compactAs_unsignedNumber hsign, hsign]
  rfl

theorem rank_of_negation
    {e : Expr}
    (h : e.asNegation?.isSome) :
    e.rank = 4 := by
  exact if_pos h

theorem rank_of_not_negation
    (h : ¬ (binary op left right).asNegation?.isSome) :
    (binary op left right).rank = op.level.rank := by
  exact if_neg h

end Forms

section Stability

variable {table : VarTable} {op : Operator} {left right : Expr}

theorem not_negation_mergeSigns
    (hneg : ¬ (binary op left right).asNegation?.isSome)
    (h : op = .sub → startsFromNegatedZero left right = false)
    (right' : Expr) :
    ¬ (binary op left.mergeSigns right').asNegation?.isSome := by
  intro hagain
  obtain ⟨hop, hleft⟩ := negatedZero_of_negation_mergeSigns hneg hagain
  exact of_decide_eq_false (h hop) hleft

theorem rank_mergeSigns
    {e : Expr}
    (h : e.someDifference startsFromNegatedZero = false) :
    e.mergeSigns.rank = e.rank := by
  fun_cases mergeSigns e with
  | case1 | case2 =>
      rfl
  | case3 op left right hneg v hv =>
      rw [rank_of_negation hneg]
      rfl
  | case4 op left right hneg hv =>
      rw [rank_of_negation hneg]
      rfl
  | case5 op left right hneg =>
      have hagain := not_negation_mergeSigns hneg (someDifference_eq_false_iff.1 h).1
      rw [rank_of_not_negation hneg, rank_of_not_negation (hagain _)]

/-- Merging leaves the compact form alone where no difference starts from `0-0`. -/
theorem compactAs_mergeSigns
    {e : Expr}
    (hover : e.isOver table)
    (h : e.someDifference startsFromNegatedZero = false)
    (whole : Bool) :
    e.mergeSigns.compactAs whole = e.compactAs whole := by
  fun_induction mergeSigns e generalizing whole with
  | case1 | case2 =>
      rfl
  | case3 op left right hneg v hv =>
      obtain ⟨-, hfinite⟩ := Bool.and_eq_true_iff.1 hover
      obtain ⟨rfl, hsign⟩ := unsignedNumber?_eq_some_iff.1 hv
      rw [compactAs_negated_number hneg hsign, compactAs, render_neg hfinite hsign,
        Binary64.neg_negative, hsign]
      rfl
  | case4 op left right hneg hv ih =>
      obtain ⟨-, hright⟩ := Bool.and_eq_true_iff.1 hover
      obtain ⟨-, -, hr⟩ := someDifference_eq_false_iff.1 h
      rw [negation, compactAs_of_negation rfl, compactAs_of_negation hneg,
        isUnsignedAtom_mergeSigns, rank_mergeSigns hr, ih hright hr]
  | case5 op left right hneg ihl ihr =>
      obtain ⟨hleft, hright⟩ := Bool.and_eq_true_iff.1 hover
      obtain ⟨hstart, hl, hr⟩ := someDifference_eq_false_iff.1 h
      have hagain := not_negation_mergeSigns hneg hstart
      rw [compactAs_of_not_negation (hagain _), compactAs_of_not_negation hneg,
        rank_mergeSigns hl, rank_mergeSigns hr, ihl hleft hl, ihr hright hr]

end Stability

section Reading

variable {table : VarTable}

/-- As an operand, an expression spells a phrase that binds as tightly as the expression. -/
def SpelledAs (table : VarTable) (e result : Expr) : Prop :=
  SpellsWhole table e.compact result ∧
    ∃ level, tightness level = e.rank ∧ Spells table level (e.compactAs false) result

theorem spelledAs_of_operand
    {e result : Expr} {level : Option Level}
    (h : Spells table level (e.compactAs false) result)
    (hlevel : tightness level = e.rank)
    (hwhole : e.compact = e.compactAs false) :
    SpelledAs table e result := by
  refine ⟨?_, level, hlevel, h⟩
  rw [hwhole]
  exact h.whole

theorem spelledAs_of_whole
    {e result : Expr}
    (h : SpellsWhole table e.compact result)
    (hrank : e.rank = 4)
    (hoperand : e.compactAs false = bracketIf true e.compact) :
    SpelledAs table e result := by
  refine ⟨h, none, hrank.symm, ?_⟩
  rw [hoperand]
  exact .bracketed h

theorem spellsWhole_negative
    {v : Binary64}
    (h : v.isFinite)
    (hsign : v.negative = true) :
    SpellsWhole table v.render (number v) := by
  obtain ⟨n, hn, hrender⟩ := exists_numeral_of_isFinite h
  have hread := Binary64.read?_render h
  rw [hsign] at hrender
  rw [hrender] at hread ⊢
  exact .minusNumeral hn hread

theorem spelledAs_number
    {v : Binary64}
    (h : v.isFinite) :
    SpelledAs table (number v) (number v) := by
  cases hsign : v.negative with
  | false =>
      have hcompact := compactAs_unsignedNumber hsign
      have hspells : Spells table none ((number v).compactAs false) (number v) := by
        rw [hcompact]
        exact .numeral (isNumeral_of_not_negative h hsign) (Binary64.read?_render h)
      refine spelledAs_of_operand hspells rfl ?_
      rw [compact, hcompact, hcompact]
  | true =>
      have hcompact (whole : Bool) : (number v).compactAs whole = bracketIf (!whole) v.render := by
        rw [compactAs, hsign]
        rfl
      refine spelledAs_of_whole ?_ rfl ?_
      · rw [compact, hcompact]
        exact spellsWhole_negative h hsign
      · rw [compact, hcompact, hcompact]
        rfl

/-- A difference from zero that is written as such starts from zero without sign. -/
theorem spellsWhole_zero_minus
    {right result : Expr} {level : Option Level}
    (h : Spells table level (right.compactAs false) result)
    (hlevel : tightness level = right.rank) :
    SpellsWhole table
      ('0' :: '-' :: bracketIf (right.rank < Level.product.rank) (right.compactAs false))
      (negation result) := by
  have hread : Binary64.read? ['0'] = some .zero := by
    decide +kernel
  have hzero : Spells table none ['0'] (number .zero) := .numeral .zero hread
  have hright : Spells table (some .sum)
      (bracketIf (right.rank < Level.product.rank) (right.compactAs false)) result := by
    refine h.bracketIf fun hnot => ?_
    rw [hlevel]
    exact Nat.le_trans (by decide) (Nat.le_of_not_lt (of_decide_eq_false hnot))
  have hdifference := @Spells.chain table .sub _ _ _ _ (hzero.loosen (tightness_le_four _)) hright
  exact hdifference.whole

/-- **The compact form of an expression spells it with its signs merged.** -/
theorem spelledAs_mergeSigns
    {e : Expr}
    (h : e.isOver table) :
    SpelledAs table e e.mergeSigns := by
  fun_induction mergeSigns e with
  | case1 v =>
      exact spelledAs_number h
  | case2 slot letter =>
      have hslot : table.slotOf? letter = some slot := of_decide_eq_true h
      exact spelledAs_of_operand (.letter hslot) rfl rfl
  | case3 op left right hneg v hv =>
      obtain ⟨-, hfinite⟩ := Bool.and_eq_true_iff.1 h
      obtain ⟨rfl, hsign⟩ := unsignedNumber?_eq_some_iff.1 hv
      have hcompact := compactAs_negated_number hneg hsign
      have hopposite : (-v).isFinite := hfinite
      have hwhole : SpellsWhole table ('-' :: v.render) (number (-v)) := by
        rw [← render_neg hfinite hsign]
        exact spellsWhole_negative hopposite (congrArg not hsign)
      refine spelledAs_of_whole ?_ (rank_of_negation hneg) ?_
      · rw [compact, hcompact]
        exact hwhole
      · rw [compact, hcompact, hcompact]
        rfl
  | case4 op left right hneg hv ih =>
      obtain ⟨-, hright⟩ := Bool.and_eq_true_iff.1 h
      refine spelledAs_of_whole ?_ (rank_of_negation hneg) ?_
      · obtain ⟨-, level, hlevel, hspells⟩ := ih hright
        rw [compact, compactAs_of_negation hneg]
        cases right with
        | number v =>
            have hsign : v.negative = true := by
              simpa [unsignedNumber?] using hv
            rw [isUnsignedAtom, hsign]
            exact spellsWhole_zero_minus hspells hlevel
        | var slot letter =>
            have hslot : table.slotOf? letter = some slot := of_decide_eq_true hright
            exact .minusLetter hslot
        | binary =>
            exact spellsWhole_zero_minus hspells hlevel
      · rw [compact, compactAs_of_negation hneg, compactAs_of_negation hneg]
        rfl
  | case5 op left right hneg ihl ihr =>
      obtain ⟨hleft, hright⟩ := Bool.and_eq_true_iff.1 h
      obtain ⟨-, inner, hinner, hl⟩ := ihl hleft
      obtain ⟨-, inner', hinner', hr⟩ := ihr hright
      have hspells : Spells table (some op.level) ((binary op left right).compactAs false)
          (binary op left.mergeSigns right.mergeSigns) := by
        rw [compactAs_of_not_negation hneg]
        refine .chain (hl.bracketIf fun hnot => ?_) (hr.bracketIf fun hnot => ?_)
        · rw [tightness_operand, hinner]
          exact Nat.lt_of_not_le (of_decide_eq_false hnot)
        · rw [hinner']
          exact Nat.le_of_not_lt (of_decide_eq_false hnot)
      refine spelledAs_of_operand hspells (rank_of_not_negation hneg).symm ?_
      rw [compact, compactAs_of_not_negation hneg, compactAs_of_not_negation hneg]

theorem compact_mergeSigns_iff
    {e : Expr}
    (h : e.isOver table) :
    e.mergeSigns.compact = e.compact ↔ e.someDifference startsFromNegatedZero = false := by
  constructor
  · intro hcompact
    -- equal texts are read as equal expressions
    have hread := (spelledAs_mergeSigns h).1.parse?_eq
    have hread' := (spelledAs_mergeSigns (isOver_mergeSigns h)).1.parse?_eq
    rw [hcompact, hread] at hread'
    exact someDifference_of_stable (Option.some.inj hread').symm
  · intro hstart
    exact compactAs_mergeSigns h hstart true

end Reading

end Expr

namespace Equation

/--
The compact form of an expression with finite numbers, over the letters of a table, is valid and is
read as the expression with its signs merged.  That expression has the same compact form, unless
some difference starts from `0-0`.
-/
theorem parse_compact
    (table : VarTable) (e : Expr)
    (h : e.isOver table) :
    isValid table e.compact = true ∧
      parse? table e.compact = some e.mergeSigns ∧
      (e.mergeSigns.compact = e.compact ↔
        e.someDifference Expr.startsFromNegatedZero = false) := by
  obtain ⟨hspells, -⟩ := Expr.spelledAs_mergeSigns h
  exact ⟨hspells.isValid, hspells.parse?_eq, Expr.compact_mergeSigns_iff h⟩

/-- Negations of a number, of a letter, of a power and of a negation in one expression. -/
def nestedNegations : Expr :=
  .binary .mul
    (.binary .sub (.number (-.zero)) (.number (.ofBits 0x4000000000000000)))
    (.binary .add
      (.negation (.binary .pow (.negation (.var 0 'x')) (.number (.ofBits 0x4000000000000000))))
      (.binary .sub (.number (-.zero)) (.negation (.var 1 'y'))))

theorem parse_compact_nestedNegations :
    nestedNegations.isOver .initial ∧
      nestedNegations.compact = "(-2)*((0-(-x)^2)+(0-(-y)))".toList ∧
      parse? .initial nestedNegations.compact = some nestedNegations.mergeSigns ∧
      nestedNegations.mergeSigns.compact = nestedNegations.compact := by
  have hover : nestedNegations.isOver .initial := by
    decide
  obtain ⟨-, hread, hstable⟩ := parse_compact .initial nestedNegations hover
  exact ⟨hover, by decide +kernel, hread, hstable.2 (by decide)⟩

/-- A difference that starts from `0-0`. -/
def differenceFromNegatedZero : Expr :=
  .binary .sub (.negation (.number .zero)) (.var 0 'x')

/-- Merging the signs of this difference makes it a negation. -/
theorem compact_mergeSigns_ne :
    differenceFromNegatedZero.isOver .initial ∧
      differenceFromNegatedZero.compact = "(-0)-x".toList ∧
      differenceFromNegatedZero.mergeSigns.compact = "-x".toList ∧
      differenceFromNegatedZero.mergeSigns.compact ≠ differenceFromNegatedZero.compact := by
  decide +kernel

section Parsed

variable {table : VarTable}

/-- The variables of an expression that has been read are in the table. -/
theorem isOver_of_phrase
    {level : Option Level} {signed : Bool} {w : List Char} {e : Expr}
    (h : Phrase table level signed w e)
    (hfinite : e.hasFiniteNumbers) :
    e.isOver table := by
  induction h with
  | numeral | signedNumeral =>
      exact hfinite
  | letter hslot | plusLetter hslot =>
      exact decide_eq_true hslot
  | minusLetter hslot =>
      exact Bool.and_eq_true_iff.2 ⟨rfl, decide_eq_true hslot⟩
  | bracketed _ ih | operand _ ih =>
      exact ih hfinite
  | chain _ _ ihu ihv =>
      obtain ⟨hu, hv⟩ := Bool.and_eq_true_iff.1 hfinite
      exact Bool.and_eq_true_iff.2 ⟨ihu hu, ihv hv⟩

theorem isOver_of_parse?
    {text : List Char} {e : Expr}
    (h : parse? table text = some e)
    (hfinite : e.hasFiniteNumbers) :
    e.isOver table := by
  obtain ⟨out, -, he⟩ := parse?_eq_some_iff.1 h
  exact isOver_of_phrase he hfinite

end Parsed

/--
The compact form of an expression that has been read, its numbers being finite, is valid.  It is
read back as an equal expression, the zeros having the same value, unless some difference from zero
takes away a number without sign; and as the same expression, with the same value on every vector
and in every arithmetic, unless some difference starts from zero with a minus sign besides.
-/
theorem parse_compact_of_parse
    (table : VarTable) (text : List Char) (e : Expr)
    (h : parse? table text = some e)
    (hfinite : e.hasFiniteNumbers) :
    isValid table e.compact = true ∧
      (∃ e', parse? table e.compact = some e' ∧
        (e'.numericEq e ↔ e.someDifference Expr.negatesNumber = false)) ∧
      (parse? table e.compact = some e ↔
        e.someDifference Expr.negatesNumber = false ∧
          e.someDifference Expr.startsFromNegativeZero = false) ∧
      (e.someDifference Expr.negatesNumber = false →
        e.someDifference Expr.startsFromNegativeZero = false →
          ∀ (α : Type) [Arithmetic α] (values : Array α),
            (parse? table e.compact).map (Expr.eval values) = some (e.eval values)) := by
  obtain ⟨hspells, -⟩ := Expr.spelledAs_mergeSigns (isOver_of_parse? h hfinite)
  have hread := hspells.parse?_eq
  have hsame := Expr.mergeSigns_eq_self_iff e
  refine ⟨hspells.isValid, ⟨_, hread, Expr.numericEq_mergeSigns_iff hfinite⟩, ?_, ?_⟩
  · rw [hread, Option.some.injEq]
    exact hsame
  · intro hnumber hzero α _ values
    rw [hread, hsame.2 ⟨hnumber, hzero⟩]
    rfl

/-- A negated letter, a negated negation and a chain that leans to the left. -/
def signedProduct : Expr :=
  .binary .mul
    (.binary .pow (.negation (.var 0 'x')) (.number (.ofBits 0x4000000000000000)))
    (.binary .sub
      (.negation (.number (.ofBits 0xc000000000000000)))
      (.var 1 'y'))

theorem parse_compact_signedProduct :
    parse? .initial "(-x)^2*((0-(-2))-y)".toList = some signedProduct ∧
      signedProduct.hasFiniteNumbers ∧
      parse? .initial signedProduct.compact = some signedProduct := by
  have hparse : parse? .initial "(-x)^2*((0-(-2))-y)".toList = some signedProduct := by
    decide +kernel
  have hfinite : signedProduct.hasFiniteNumbers := by
    decide
  obtain ⟨-, -, hsame, -⟩ := parse_compact_of_parse .initial _ _ hparse hfinite
  exact ⟨hparse, hfinite, hsame.2 (by decide)⟩

/-- One divided by the difference of two zeros. -/
def quotientByZero : Expr :=
  .binary .div (.number (.ofBits 0x3ff0000000000000)) (.negation (.number .zero))

/-- Its compact form divides by `-0`, and has the other infinity as its value. -/
theorem parse_compact_quotientByZero_ne :
    parse? .initial "1/(0-0)".toList = some quotientByZero ∧
      quotientByZero.compact = "1/(-0)".toList ∧
      parse? .initial quotientByZero.compact = some quotientByZero.mergeSigns ∧
      quotientByZero.mergeSigns.numericEq quotientByZero = false ∧
      (quotientByZero.eval #[] : Float) = Float.ofBits 0x7ff0000000000000 ∧
      (quotientByZero.mergeSigns.eval #[] : Float) = Float.ofBits 0xfff0000000000000 := by
  decide +kernel

end Equation

end FormulaCalc
