import FormulaCalc.Proofs.DisplayRoundTrip
/-!
# Merging signs

A text has two ways to write a negation: a sign in front of a letter or a number, and a difference
from zero.  The compact form uses the sign wherever it can, and the sign of a number becomes part of
the number when it is read.  `mergeSigns` carries this out on the expression: a difference from zero
that takes away a number without sign becomes the number with a minus sign, and all others start
from `+0`.

Merging is not stable where a difference starts from `0-0`: the difference then starts from `-0`,
and is a difference from zero itself.
-/

namespace FormulaCalc

namespace Expr

/-- The value of a number without minus sign. -/
def unsignedNumber? : Expr → Option Binary64
  | number value => if value.negative then none else some value
  | _ => none

/-- The expression in which every negation is the one a merged sign is read as. -/
def mergeSigns : Expr → Expr
  | number value => number value
  | var slot letter => var slot letter
  | binary op left right =>
    if (binary op left right).asNegation?.isSome then
      match right.unsignedNumber? with
      | some value => number (-value)
      | none => negation right.mergeSigns
    else binary op left.mergeSigns right.mergeSigns

/-- Whether the operands of some difference have a property. -/
def someDifference (p : Expr → Expr → Bool) : Expr → Bool
  | number _ | var _ _ => false
  | binary op left right =>
    (op = .sub && p left right) || left.someDifference p || right.someDifference p

/-- Whether a difference starts from `0-0`, the zero taken away being without sign. -/
def startsFromNegatedZero (left _right : Expr) : Bool :=
  left.asNegation? = some (.number .zero)

/-- Whether a difference from zero takes away a number without sign. -/
def negatesNumber (left right : Expr) : Bool :=
  left.isZero && right.unsignedNumber?.isSome

/-- Whether a difference starts from zero with a minus sign. -/
def startsFromNegativeZero (left _right : Expr) : Bool :=
  left = .number (-.zero)

section Shapes

theorem zero_ne_neg_zero :
    Binary64.zero ≠ -Binary64.zero := by
  decide

theorem eq_zero_or_eq_neg_zero
    {z : Binary64}
    (h : z.isZero) :
    z = .zero ∨ z = -.zero := by
  have hmagnitude : z.magnitude = 0 := of_decide_eq_true h
  cases hsign : z.negative with
  | false =>
      exact .inl (Binary64.ext hsign hmagnitude)
  | true =>
      exact .inr (Binary64.ext hsign hmagnitude)

theorem isZero_iff
    {e : Expr} :
    e.isZero ↔ ∃ z, e = number z ∧ z.isZero := by
  cases e <;> simp [isZero]

theorem unsignedNumber?_eq_some_iff
    {e : Expr} {v : Binary64} :
    e.unsignedNumber? = some v ↔ e = number v ∧ v.negative = false := by
  cases e with
  | number value =>
      rw [unsignedNumber?]
      constructor
      · intro h
        split at h
        · cases h
        · next hsign =>
            obtain rfl := Option.some.inj h
            exact ⟨rfl, Bool.eq_false_iff.2 hsign⟩
      · rintro ⟨heq, hsign⟩
        obtain rfl := number.inj heq
        rw [hsign]
        rfl
  | var | binary =>
      simp [unsignedNumber?]

/-- A negation is a difference from zero. -/
theorem exists_zero_of_negation
    {op : Operator} {left right : Expr}
    (h : (binary op left right).asNegation?.isSome) :
    op = .sub ∧ ∃ z, left = number z ∧ z.isZero := by
  cases op with
  | sub =>
      rw [asNegation?] at h
      split at h
      · next hzero => exact ⟨rfl, isZero_iff.1 hzero⟩
      · cases h
  | _ =>
      cases h

theorem negation_of_zero
    {z : Binary64}
    (h : z.isZero)
    (right : Expr) :
    (binary .sub (number z) right).asNegation? = some right := by
  rw [asNegation?, isZero, if_pos h]

theorem isZero_of_not_negation
    {left right : Expr}
    (h : ¬ (binary .sub left right).asNegation?.isSome) :
    left.isZero = false := by
  rw [Bool.eq_false_iff]
  intro hleft
  rw [asNegation?, if_pos hleft] at h
  exact h rfl

end Shapes

section Merging

variable {op : Operator} {left right : Expr} {v : Binary64}

theorem mergeSigns_of_number
    (h : (binary op left right).asNegation?.isSome)
    (hv : right.unsignedNumber? = some v) :
    (binary op left right).mergeSigns = number (-v) := by
  rw [mergeSigns, if_pos h, hv]

theorem mergeSigns_of_negation
    (h : (binary op left right).asNegation?.isSome)
    (hv : right.unsignedNumber? = none) :
    (binary op left right).mergeSigns = negation right.mergeSigns := by
  rw [mergeSigns, if_pos h, hv]

theorem mergeSigns_of_not_negation
    (h : ¬ (binary op left right).asNegation?.isSome) :
    (binary op left right).mergeSigns = binary op left.mergeSigns right.mergeSigns := by
  rw [mergeSigns, if_neg h]

/-- Merging turns no other expression into a number without sign, and none of these away. -/
theorem unsignedNumber?_mergeSigns
    (e : Expr) :
    e.mergeSigns.unsignedNumber? = e.unsignedNumber? := by
  fun_induction mergeSigns e with
  | case1 | case2 | case5 =>
      rfl
  | case3 op left right hneg v hv =>
      obtain ⟨-, hsign⟩ := unsignedNumber?_eq_some_iff.1 hv
      rw [unsignedNumber?, Binary64.neg_negative, hsign]
      rfl
  | case4 =>
      rfl

theorem isUnsignedAtom_mergeSigns
    (e : Expr) :
    e.mergeSigns.isUnsignedAtom = e.isUnsignedAtom := by
  fun_induction mergeSigns e with
  | case3 op left right hneg v hv =>
      obtain ⟨-, hsign⟩ := unsignedNumber?_eq_some_iff.1 hv
      rw [isUnsignedAtom, Binary64.neg_negative, hsign]
      rfl
  | _ =>
      rfl

/-- What `0-0` becomes. -/
theorem mergeSigns_of_negatedZero
    {e : Expr}
    (h : e.asNegation? = some (number .zero)) :
    e.mergeSigns = number (-.zero) := by
  cases e with
  | number | var =>
      cases h
  | binary op left right =>
      have hneg : (binary op left right).asNegation?.isSome := by
        rw [h]
        rfl
      obtain ⟨rfl, z, rfl, hz⟩ := exists_zero_of_negation hneg
      rw [negation_of_zero hz] at h
      obtain rfl := Option.some.inj h
      exact mergeSigns_of_number hneg rfl

/-- Only zeros and `0-0` become zeros. -/
theorem isZero_mergeSigns
    {e : Expr}
    (h : e.mergeSigns.isZero) :
    e.isZero ∨ e.asNegation? = some (number .zero) := by
  fun_induction mergeSigns e with
  | case1 =>
      exact .inl h
  | case3 op left right hneg v hv =>
      obtain ⟨rfl, hsign⟩ := unsignedNumber?_eq_some_iff.1 hv
      obtain ⟨rfl, z, rfl, hz⟩ := exists_zero_of_negation hneg
      have hzero : v = .zero := Binary64.ext hsign (of_decide_eq_true h)
      rw [negation_of_zero hz, hzero]
      exact .inr rfl
  | _ =>
      cases h

theorem isOver_mergeSigns
    {table : VarTable} {e : Expr}
    (h : e.isOver table) :
    e.mergeSigns.isOver table := by
  fun_induction mergeSigns e with
  | case1 | case2 =>
      exact h
  | case3 op left right hneg v hv =>
      obtain ⟨rfl, -⟩ := unsignedNumber?_eq_some_iff.1 hv
      exact (Bool.and_eq_true_iff.1 h).2
  | case4 op left right hneg hv ih =>
      obtain ⟨-, hright⟩ := Bool.and_eq_true_iff.1 h
      exact Bool.and_eq_true_iff.2 ⟨rfl, ih hright⟩
  | case5 op left right hneg ihl ihr =>
      obtain ⟨hleft, hright⟩ := Bool.and_eq_true_iff.1 h
      exact Bool.and_eq_true_iff.2 ⟨ihl hleft, ihr hright⟩

/-- A difference from something else becomes a difference from zero only if it starts from `0-0`. -/
theorem negatedZero_of_negation_mergeSigns
    {right' : Expr}
    (hneg : ¬ (binary op left right).asNegation?.isSome)
    (h : (binary op left.mergeSigns right').asNegation?.isSome) :
    op = .sub ∧ left.asNegation? = some (number .zero) := by
  obtain ⟨rfl, z, hz, hzero⟩ := exists_zero_of_negation h
  refine ⟨rfl, (isZero_mergeSigns (isZero_iff.2 ⟨z, hz, hzero⟩)).resolve_left ?_⟩
  rw [isZero_of_not_negation hneg]
  nofun

end Merging

section Stability

variable {p : Expr → Expr → Bool} {op : Operator} {left right : Expr}

theorem someDifference_eq_false_iff :
    (binary op left right).someDifference p = false ↔
      (op = .sub → p left right = false) ∧
        left.someDifference p = false ∧ right.someDifference p = false := by
  simp only [someDifference, Bool.or_eq_false_iff, Bool.and_eq_false_iff,
    decide_eq_false_iff_not, and_assoc, Decidable.imp_iff_not_or]

/-- Merging again changes nothing only if no difference starts from `0-0`. -/
theorem someDifference_of_stable
    {e : Expr}
    (h : e.mergeSigns.mergeSigns = e.mergeSigns) :
    e.someDifference startsFromNegatedZero = false := by
  fun_induction mergeSigns e with
  | case1 | case2 =>
      rfl
  | case3 op left right hneg v hv =>
      obtain ⟨rfl, -⟩ := unsignedNumber?_eq_some_iff.1 hv
      obtain ⟨rfl, z, rfl, hz⟩ := exists_zero_of_negation hneg
      rfl
  | case4 op left right hneg hv ih =>
      obtain ⟨rfl, z, rfl, hz⟩ := exists_zero_of_negation hneg
      have hmerged := unsignedNumber?_mergeSigns right
      rw [hv] at hmerged
      rw [negation, mergeSigns_of_negation rfl hmerged] at h
      exact someDifference_eq_false_iff.2 ⟨fun _ => rfl, rfl, ih (binary.inj h).2.2⟩
  | case5 op left right hneg ihl ihr =>
      by_cases hagain : (binary op left.mergeSigns right.mergeSigns).asNegation?.isSome
      · -- the difference starts from `-0` after the first merging and from `+0` after the second
        obtain ⟨rfl, hleft⟩ := negatedZero_of_negation_mergeSigns hneg hagain
        rw [mergeSigns_of_negatedZero hleft] at h hagain
        cases hv : right.mergeSigns.unsignedNumber? with
        | some v =>
            rw [mergeSigns_of_number hagain hv] at h
            cases h
        | none =>
            rw [mergeSigns_of_negation hagain hv, negation] at h
            exact absurd (number.inj (binary.inj h).2.1) zero_ne_neg_zero
      · rw [mergeSigns_of_not_negation hagain] at h
        obtain ⟨-, hl, hr⟩ := binary.inj h
        refine someDifference_eq_false_iff.2 ⟨fun hop => ?_, ihl hl, ihr hr⟩
        rw [startsFromNegatedZero, decide_eq_false_iff_not]
        intro hleft
        rw [hop, mergeSigns_of_negatedZero hleft] at hagain
        exact absurd rfl hagain

end Stability

section Equality

/-- Whether all numbers are finite. -/
def hasFiniteNumbers : Expr → Bool
  | number value => value.isFinite
  | var _ _ => true
  | binary _ left right => left.hasFiniteNumbers && right.hasFiniteNumbers

theorem numericEq_self_of_isFinite
    {v : Binary64}
    (h : v.isFinite) :
    v.numericEq v := by
  rw [Binary64.numericEq, Binary64.isNaN_eq_false h]
  simp

theorem numericEq_zero_of_isZero
    {z : Binary64}
    (h : z.isZero) :
    Binary64.zero.numericEq z := by
  have hmagnitude : z.magnitude = 0 := of_decide_eq_true h
  rw [Binary64.numericEq, h, Binary64.isNaN, Binary64.isNaN, hmagnitude]
  rfl

theorem negatesNumber_of_not_negation
    {op : Operator} {left right : Expr}
    (h : ¬ (binary op left right).asNegation?.isSome) :
    op = .sub → negatesNumber left right = false := by
  rintro rfl
  rw [negatesNumber, isZero_of_not_negation h]
  rfl

/-- **Merging keeps an expression up to the sign of zeros if no number is negated in it.** -/
theorem numericEq_mergeSigns_iff
    {e : Expr}
    (h : e.hasFiniteNumbers) :
    e.mergeSigns.numericEq e ↔ e.someDifference negatesNumber = false := by
  fun_induction mergeSigns e with
  | case1 value =>
      exact iff_of_true (numericEq_self_of_isFinite h) rfl
  | case2 =>
      exact iff_of_true (by simp [numericEq]) rfl
  | case3 op left right hneg v hv =>
      obtain ⟨rfl, z, rfl, hz⟩ := exists_zero_of_negation hneg
      refine iff_of_false (fun h => by cases h) ?_
      simp [someDifference, negatesNumber, isZero, hz, hv]
  | case4 op left right hneg hv ih =>
      obtain ⟨rfl, z, rfl, hz⟩ := exists_zero_of_negation hneg
      obtain ⟨-, hright⟩ := Bool.and_eq_true_iff.1 h
      simp [negation, numericEq, numericEq_zero_of_isZero hz, ih hright, someDifference,
        negatesNumber, hv]
  | case5 op left right hneg ihl ihr =>
      obtain ⟨hleft, hright⟩ := Bool.and_eq_true_iff.1 h
      have hnumber := negatesNumber_of_not_negation hneg
      rw [someDifference_eq_false_iff, and_iff_right hnumber, ← ihl hleft, ← ihr hright]
      simp [numericEq]

/-- **Merging keeps an expression bit for bit if besides all its negations start from `+0`.** -/
theorem mergeSigns_eq_self_iff
    (e : Expr) :
    e.mergeSigns = e ↔
      e.someDifference negatesNumber = false ∧
        e.someDifference startsFromNegativeZero = false := by
  fun_induction mergeSigns e with
  | case1 | case2 =>
      exact iff_of_true rfl ⟨rfl, rfl⟩
  | case3 op left right hneg v hv =>
      obtain ⟨rfl, z, rfl, hz⟩ := exists_zero_of_negation hneg
      refine iff_of_false (fun h => by cases h) ?_
      simp [someDifference, negatesNumber, isZero, hz, hv]
  | case4 op left right hneg hv ih =>
      obtain ⟨rfl, z, rfl, hz⟩ := exists_zero_of_negation hneg
      simp only [negation, binary.injEq, number.injEq, ih, someDifference_eq_false_iff]
      rcases eq_zero_or_eq_neg_zero hz with rfl | rfl <;>
        simp [negatesNumber, hv, startsFromNegativeZero, someDifference, zero_ne_neg_zero]
  | case5 op left right hneg ihl ihr =>
      have hnumber := negatesNumber_of_not_negation hneg
      have hzero : op = .sub → startsFromNegativeZero left right = false := by
        rintro rfl
        rw [startsFromNegativeZero, decide_eq_false_iff_not]
        rintro rfl
        cases isZero_of_not_negation hneg
      rw [someDifference_eq_false_iff, and_iff_right hnumber,
        someDifference_eq_false_iff, and_iff_right hzero, and_and_and_comm, ← ihl, ← ihr,
        binary.injEq, eq_self, true_and]

end Equality

end Expr

end FormulaCalc
