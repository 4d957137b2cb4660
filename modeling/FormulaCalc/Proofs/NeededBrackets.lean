import FormulaCalc.Proofs.BracketPairs
import FormulaCalc.Proofs.OperatorCounts
/-!
# No needless brackets

The compact form has brackets around negations, around numbers with a minus sign and around what a
negation takes away, by a rule of its own.  All other pairs are needed: if one is taken out, the
text is read as an expression with other operators, or not at all (`compact_brackets_needed`).

A text is misread for an expression if no reading of it has the operators of the expression
(`Misread`).  An operand that has lost its brackets beside an operator that binds more tightly is
misread as a phrase of the level that the operator asks for, since a phrase of this level has no
operator as loose as that of the operand (`Misread.of_looser`).  And a text is misread if one of its
operands is: it can be cut at no other place, by the number of operators on the left of the cut.
-/

namespace FormulaCalc

open Validity ImplicitProduct

variable {table : VarTable} {level : Option Level} {u v w : List Char}

/-- A text that leaves no product out and has, as a phrase of a level, never these operators. -/
structure Misread (table : VarTable) (level : Option Level) (w : List Char) (e : Expr) : Prop where
  written : IsWritten table w
  differs : ∀ t, Phrase table level true w t → ¬ t.sameOperators e

namespace Misread

variable {op : Operator} {e left right : Expr}

theorem tighten
    (h : Misread table (some .sum) w e) :
    Misread table level w e where
  written := h.written
  differs t ht := h.differs t (ht.loosen (tightness_sum_le level))

/-- Brackets around a misread text do not help. -/
theorem bracketIf
    (h : Misread table (some .sum) w e)
    (hw : Balanced w)
    (wanted : Bool) :
    Misread table level (Expr.bracketIf wanted w) e := by
  cases wanted with
  | false =>
      exact h.tighten
  | true =>
      exact ⟨h.written.bracketIf true, fun t ht => h.differs t (ht.inside_brackets hw)⟩

/-- A text is misread if its left operand is. -/
theorem left_operand
    (h : Misread table op.level.operand u left)
    (hu : HasOperators u left.operatorCount)
    (hv : IsWritten table v) :
    Misread table level (u ++ op.symbol :: v) (.binary op left right) where
  written := h.written.operator op hv
  differs t ht hsame := by
    obtain ⟨a, -, ha, -, hleft, -, -⟩ := ht.cut hu hsame
    exact h.differs a hleft ha

/-- A text is misread if its right operand is. -/
theorem right_operand
    (h : Misread table (some op.level) v right)
    (hu : HasOperators u left.operatorCount)
    (hwritten : IsWritten table u) :
    Misread table level (u ++ op.symbol :: v) (.binary op left right) where
  written := hwritten.operator op h.written
  differs t ht hsame := by
    obtain ⟨-, b, -, hb, -, hright, -⟩ := ht.cut hu hsame
    exact h.differs b hright hb

/-- **A text is misread as a phrase of a level that is tighter than its operator.** -/
theorem of_looser
    (hwritten : IsWritten table (u ++ op.symbol :: v))
    (hu : HasOperators u left.operatorCount)
    (hlt : op.level.rank < tightness level) :
    Misread table level (u ++ op.symbol :: v) (.binary op left right) where
  written := hwritten
  differs t ht hsame := by
    obtain ⟨-, -, -, -, -, -, hle⟩ := ht.cut hu hsame
    exact absurd hle (Nat.not_le_of_lt hlt)

end Misread

/-- A text keeps its operators if a pair of brackets is taken out of it. -/
theorem HasPair.hasOperators_deleted
    {before inner behind : List Char} {n : Nat}
    (h : HasPair w before inner behind)
    (hw : HasOperators w n) :
    HasOperators (before ++ (inner ++ behind)) n := by
  refine hw.congr (h.balanced_deleted hw.balanced) ?_
  rw [h.1]
  simp [withoutBrackets]

namespace BracketPair

/--
Whether a pair is none of those that have a rule of their own: around a negation, around a number
with a minus sign, and around what a negation takes away from the zero it is written with.
-/
structure IsOrdinary (p : BracketPair) : Prop where
  not_negation : ¬ p.enclosed.asNegation?.isSome
  not_negative : ∀ v, p.enclosed = .number v → v.negative = false
  not_behindZero : p.behindZero = false

/-- The kind of a pair is a matter of what it encloses and where. -/
theorem IsOrdinary.congr
    {p q : BracketPair}
    (h : p.IsOrdinary)
    (henclosed : p.enclosed = q.enclosed)
    (hzero : p.behindZero = q.behindZero) :
    q.IsOrdinary where
  not_negation := henclosed ▸ h.not_negation
  not_negative := henclosed ▸ h.not_negative
  not_behindZero := hzero ▸ h.not_behindZero

theorem deleted_within
    (p : BracketPair) (left right : List Char) :
    (p.within left right).deleted = left ++ p.deleted ++ right := by
  simp [deleted, within]

/-- A listed pair is the one around the part, or one inside of it. -/
theorem mem_listIf
    {p : BracketPair} {wanted behindZero : Bool} {enclosed : Expr} {inside : List BracketPair}
    (h : p ∈ listIf wanted behindZero enclosed inside) :
    (wanted = true ∧ p = ⟨[], enclosed, [], behindZero⟩) ∨
      ∃ q ∈ inside, p.enclosed = q.enclosed ∧ p.behindZero = q.behindZero ∧
        q.before <:+ p.before ∧ p.deleted = Expr.bracketIf wanted q.deleted := by
  cases wanted with
  | false =>
      exact .inr ⟨p, h, rfl, rfl, List.suffix_rfl, rfl⟩
  | true =>
      rcases List.mem_cons.1 h with rfl | h
      · exact .inl ⟨rfl, rfl⟩
      · obtain ⟨q, hq, rfl⟩ := List.mem_map.1 h
        exact .inr ⟨q, hq, rfl, rfl, List.suffix_append _ _, deleted_within q ['('] [')']⟩

end BracketPair

namespace Expr

open BracketPair

variable {e : Expr} {p : BracketPair}

theorem hasOperators_operand
    (h : e.isOver table)
    (wanted : Bool) :
    HasOperators (bracketIf wanted (e.compactAs false)) e.mergeSigns.operatorCount := by
  obtain ⟨-, level, -, hspells⟩ := spelledAs_mergeSigns h
  cases wanted with
  | false =>
      exact hspells.phrase.hasOperators
  | true =>
      exact hspells.phrase.hasOperators.bracketed

theorem isWritten_operand
    (h : e.isOver table)
    (wanted : Bool) :
    IsWritten table (bracketIf wanted (e.compactAs false)) := by
  obtain ⟨-, level, -, hspells⟩ := spelledAs_mergeSigns h
  exact IsWritten.bracketIf hspells.written wanted

/-- What binds less tightly than a level is misread as a phrase of this level without brackets. -/
theorem misread_compact
    (h : e.isOver table)
    (hneg : ¬ e.asNegation?.isSome)
    (hrank : e.rank < tightness level) :
    Misread table level e.compact e.mergeSigns := by
  have hatom : e.rank < 4 := Nat.lt_of_lt_of_le hrank (tightness_le_four level)
  cases e with
  | number | var =>
      exact absurd hatom (Nat.lt_irrefl 4)
  | binary op left right =>
      obtain ⟨hleft, hright⟩ := Bool.and_eq_true_iff.1 h
      rw [rank_of_not_negation hneg] at hrank
      rw [compact, compactAs_of_not_negation hneg, mergeSigns_of_not_negation hneg]
      exact .of_looser ((isWritten_operand hleft _).operator op (isWritten_operand hright _))
        (hasOperators_operand hleft _) hrank

/-- An operand that has lost a pair of brackets still has as many operators. -/
theorem hasOperators_deleted
    {wanted behindZero : Bool}
    (h : e.isOver table)
    (hp : p ∈ listIf wanted behindZero e (e.bracketPairsAs false))
    (hrank : wanted = true → e.rank < 4) :
    HasOperators p.deleted e.mergeSigns.operatorCount := by
  have hlists := lists_operand h (lists_compactAs h false) behindZero hrank
  have hpair := (hlists _ _ _).1 ⟨p, hp, rfl, rfl, rfl⟩
  exact hpair.hasOperators_deleted (hasOperators_operand h wanted)

/-- Whether an expression, as an operand, is misread without any one of its ordinary pairs. -/
def NeedsPairs (table : VarTable) (e : Expr) : Prop :=
  ∀ p ∈ e.bracketPairsAs false, p.IsOrdinary → Misread table (some .sum) p.deleted e.mergeSigns

/--
An operand that has lost an ordinary pair of brackets is misread at its place.  The pair was one
inside of the operand, or its own because it binds less tightly than its place asks for.
-/
theorem misread_operand
    {wanted behindZero : Bool}
    (h : e.isOver table)
    (hneeds : NeedsPairs table e)
    (hp : p ∈ listIf wanted behindZero e (e.bracketPairsAs false))
    (hordinary : p.IsOrdinary)
    (hrank : wanted = true → behindZero = false → e.rank < tightness level) :
    Misread table level p.deleted e.mergeSigns := by
  rcases mem_listIf hp with ⟨hwanted, rfl⟩ | ⟨q, hq, hpart, hzero, -, hdeleted⟩
  · have hmisread := misread_compact h hordinary.not_negation
      (hrank hwanted hordinary.not_behindZero)
    rw [deleted, List.nil_append, List.append_nil]
    exact hmisread
  · have hpair := (lists_compactAs h false _ _ _).1 ⟨q, hq, rfl, rfl, rfl⟩
    have hbalanced := hpair.balanced_deleted (balanced_compactAs h false)
    rw [hdeleted]
    exact (hneeds q hq (hordinary.congr hpart hzero)).bracketIf hbalanced wanted

section Binary

variable {op : Operator} {left right : Expr}

theorem misread_left
    (hleft : left.isOver table)
    (hneeds : NeedsPairs table left)
    (hp : p ∈ listIf (left.rank ≤ op.level.rank) false left (left.bracketPairsAs false))
    (hordinary : p.IsOrdinary)
    (hv : IsWritten table v) :
    Misread table level (p.deleted ++ op.symbol :: v) (.binary op left.mergeSigns right) := by
  have hle (hwanted : decide (left.rank ≤ op.level.rank) = true) := of_decide_eq_true hwanted
  have hcount := hasOperators_deleted hleft hp fun hwanted => rank_lt_four_of_le (hle hwanted)
  refine Misread.left_operand ?_ hcount hv
  refine misread_operand hleft hneeds hp hordinary fun hwanted _ => ?_
  rw [tightness_operand]
  exact Nat.lt_succ_of_le (hle hwanted)

theorem misread_right
    (hright : right.isOver table)
    (hneeds : NeedsPairs table right)
    (hp : p ∈ listIf (right.rank < op.level.rank) false right (right.bracketPairsAs false))
    (hordinary : p.IsOrdinary)
    (hu : HasOperators u left.operatorCount)
    (hwritten : IsWritten table u) :
    Misread table level (u ++ op.symbol :: p.deleted) (.binary op left right.mergeSigns) := by
  refine Misread.right_operand ?_ hu hwritten
  exact misread_operand hright hneeds hp hordinary fun hwanted _ => of_decide_eq_true hwanted

theorem hasOperators_zero :
    HasOperators ['0'] 0 := by
  exact hasOperators_word IsNumeral.zero.plain IsNumeral.zero.ne_nil

theorem isWritten_zero :
    IsWritten table ['0'] := by
  exact .of_operand (.atom (.numeral .zero))

/-- The brackets around what a negation takes away are no ordinary pair; those inside of it are. -/
theorem misread_behind_zero
    (hright : right.isOver table)
    (hneeds : NeedsPairs table right)
    (hp : p ∈ listIf (right.rank < Level.product.rank) true right (right.bracketPairsAs false))
    (hordinary : p.IsOrdinary) :
    Misread table (some .sum) (['0'] ++ Operator.sub.symbol :: p.deleted)
      (negation right.mergeSigns) := by
  have hmisread : Misread table (some Operator.sub.level) p.deleted right.mergeSigns :=
    misread_operand hright hneeds hp hordinary fun _ hzero => by cases hzero
  have hzero : HasOperators ['0'] (number .zero).operatorCount := hasOperators_zero
  exact hmisread.right_operand hzero isWritten_zero

end Binary

/-- What is listed as standing behind the zero of a negation does so. -/
theorem zero_minus_suffix
    {whole : Bool}
    (hp : p ∈ e.bracketPairsAs whole)
    (hzero : p.behindZero = true) :
    ['0', '-'] <:+ p.before := by
  induction e generalizing whole p with
  | number v =>
      rcases mem_listIf hp with ⟨-, rfl⟩ | ⟨q, hq, -⟩
      · cases hzero
      · cases hq
  | var =>
      cases hp
  | binary op left right ihl ihr =>
      rw [bracketPairsAs] at hp
      split at hp
      · rcases mem_listIf hp with ⟨-, rfl⟩ | ⟨_, hinside, -, hsame, hsuffix, -⟩
        · cases hzero
        · split at hinside
          · cases hinside
          · -- the pair is the one around the operand, or it stands behind a zero in the operand
            obtain ⟨q, hq, rfl⟩ := List.mem_map.1 hinside
            refine .trans ?_ hsuffix
            rcases mem_listIf hq with ⟨-, rfl⟩ | ⟨r, hr, -, hsame', hsuffix', -⟩
            · exact List.suffix_rfl
            · have hr := ihr hr (hsame' ▸ hsame ▸ hzero)
              exact (hr.trans hsuffix').trans (List.suffix_append _ _)
      · rcases List.mem_append.1 hp with hp | hp
        · obtain ⟨q, hq, rfl⟩ := List.mem_map.1 hp
          rcases mem_listIf hq with ⟨-, rfl⟩ | ⟨r, hr, -, hsame, hsuffix, -⟩
          · cases hzero
          · exact ((ihl hr (hsame ▸ hzero)).trans hsuffix).trans (List.suffix_append _ _)
        · obtain ⟨q, hq, rfl⟩ := List.mem_map.1 hp
          rcases mem_listIf hq with ⟨-, rfl⟩ | ⟨r, hr, -, hsame, hsuffix, -⟩
          · cases hzero
          · exact ((ihr hr (hsame ▸ hzero)).trans hsuffix).trans (List.suffix_append _ _)

theorem unsignedNumber?_of_not_atom
    (h : ¬ e.isUnsignedAtom) :
    e.unsignedNumber? = none := by
  cases e with
  | number v =>
      have hsign : v.negative = true := by
        simpa [isUnsignedAtom] using h
      rw [unsignedNumber?, if_pos hsign]
  | var | binary =>
      rfl

/-- **The compact form without one of its ordinary pairs of brackets is misread.** -/
theorem misread_deleted
    {whole : Bool}
    (h : e.isOver table)
    (hp : p ∈ e.bracketPairsAs whole)
    (hordinary : p.IsOrdinary) :
    Misread table (some .sum) p.deleted e.mergeSigns := by
  induction e generalizing whole p with
  | number v =>
      rcases mem_listIf hp with ⟨hwanted, rfl⟩ | ⟨q, hq, -⟩
      · rw [hordinary.not_negative v rfl] at hwanted
        cases hwanted
      · cases hq
  | var =>
      cases hp
  | binary op left right ihl ihr =>
      obtain ⟨hleft, hright⟩ := Bool.and_eq_true_iff.1 h
      have hneedsl : NeedsPairs table left := fun q hq => ihl hleft hq
      have hneedsr : NeedsPairs table right := fun q hq => ihr hright hq
      rw [bracketPairsAs] at hp
      split at hp
      · next hneg =>
          rcases mem_listIf hp with ⟨-, rfl⟩ | ⟨_, hinside, hpart, hzero, -, hdeleted⟩
          · exact absurd hneg hordinary.not_negation
          · split at hinside
            · cases hinside
            · next hatom =>
                obtain ⟨q, hq, rfl⟩ := List.mem_map.1 hinside
                have hordinary : q.IsOrdinary := hordinary.congr hpart hzero
                have hmisread := misread_behind_zero hright hneedsr hq hordinary
                have hcount := hasOperators_deleted hright hq
                  fun hwanted => rank_lt_four_of_lt (of_decide_eq_true hwanted)
                have hbalanced := (hasOperators_zero.chain .sub hcount).balanced
                rw [mergeSigns_of_negation hneg (unsignedNumber?_of_not_atom hatom), hdeleted,
                  deleted_within, List.append_nil]
                exact hmisread.bracketIf hbalanced (!whole)
      · next hneg =>
          rw [mergeSigns_of_not_negation hneg]
          rcases List.mem_append.1 hp with hp | hp
          · obtain ⟨q, hq, rfl⟩ := List.mem_map.1 hp
            rw [deleted_within]
            exact misread_left hleft hneedsl hq (hordinary.congr rfl rfl)
              (isWritten_operand hright _)
          · obtain ⟨q, hq, rfl⟩ := List.mem_map.1 hp
            rw [deleted_within, List.append_nil, List.append_assoc, List.singleton_append]
            exact misread_right hright hneedsr hq (hordinary.congr rfl rfl)
              (hasOperators_operand hleft _) (isWritten_operand hleft _)

end Expr

namespace Equation

/--
The compact form of an expression with finite numbers, over the letters of a table, has no needless
brackets.  `bracketPairs` lists its matching pairs of brackets, each with the part it encloses, and
those that are marked as standing behind the zero of a negation do so.  If one of them is taken out
that is not around a negation, not around a number with a minus sign and not around what a negation
takes away, then the text is refused or read as an expression that differs from what the compact
form is read as, not only in the sign of a zero.
-/
theorem compact_brackets_needed
    (table : VarTable) (e : Expr)
    (h : e.isOver table) :
    (∀ before inner behind,
      (∃ p ∈ e.bracketPairs, p.Is before inner behind) ↔
        HasPair e.compact before inner behind) ∧
    (∀ p ∈ e.bracketPairs, p.behindZero = true → ['0', '-'] <:+ p.before) ∧
    parse? table e.compact = some e.mergeSigns ∧
    ∀ p ∈ e.bracketPairs, p.IsOrdinary →
      parse? table p.deleted ≠ parse? table e.compact ∧
      ∀ t, parse? table p.deleted = some t →
        t ≠ e.mergeSigns ∧ t.numericEq e.mergeSigns = false := by
  have hread := (Expr.spelledAs_mergeSigns h).1.parse?_eq
  refine ⟨Expr.lists_compact h, fun p hp => Expr.zero_minus_suffix hp, hread,
    fun p hp hordinary => ?_⟩
  have hmisread := Expr.misread_deleted h hp hordinary
  have hdiffers (t : Expr) (ht : parse? table p.deleted = some t) :
      ¬ t.sameOperators e.mergeSigns :=
    hmisread.differs t (hmisread.written.phrase_of_parse? ht)
  refine ⟨fun heq => ?_, fun t ht => ⟨?_, ?_⟩⟩
  · exact hdiffers _ (heq.trans hread) e.mergeSigns.sameOperators_self
  · rintro rfl
    exact hdiffers _ ht e.mergeSigns.sameOperators_self
  · rw [Bool.eq_false_iff]
    exact fun heq => hdiffers t ht (Expr.sameOperators_of_numericEq heq)

/-- A chain that leans to the left, and a sum as a factor of what is taken away from zero. -/
def differenceOfNegation : Expr :=
  .binary .sub (.binary .sub (.var 0 'x') (.var 1 'y'))
    (.negation (.binary .mul (.binary .add (.var 0 'x') (.var 1 'y'))
      (.number (.ofBits 0xc000000000000000))))

/-- The brackets around the sum; those around the negation and the number are not ordinary. -/
def pairAroundSum : BracketPair where
  before := "(x-y)-(0-".toList
  enclosed := .binary .add (.var 0 'x') (.var 1 'y')
  behind := "*(-2))".toList
  behindZero := false

theorem compact_brackets_needed_differenceOfNegation :
    differenceOfNegation.isOver .initial ∧
      differenceOfNegation.compact = "(x-y)-(0-(x+y)*(-2))".toList ∧
      pairAroundSum ∈ differenceOfNegation.bracketPairs ∧
      pairAroundSum.deleted = "(x-y)-(0-x+y*(-2))".toList ∧
      parse? .initial pairAroundSum.deleted ≠ parse? .initial differenceOfNegation.compact := by
  have hover : differenceOfNegation.isOver .initial := by
    decide
  have hmem : pairAroundSum ∈ differenceOfNegation.bracketPairs := by
    decide +kernel
  have hordinary : pairAroundSum.IsOrdinary := by
    refine ⟨by decide, fun v hv => ?_, rfl⟩
    cases hv
  obtain ⟨-, -, -, hneeded⟩ := compact_brackets_needed .initial differenceOfNegation hover
  exact ⟨hover, by decide +kernel, hmem, by decide +kernel,
    (hneeded pairAroundSum hmem hordinary).1⟩

end Equation

end FormulaCalc
