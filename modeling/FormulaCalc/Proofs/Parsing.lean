import FormulaCalc.Equation
import FormulaCalc.Proofs.Building
import FormulaCalc.Proofs.WrittenProduct
/-!
# From well-formed texts to expressions

A text that is well formed becomes a sum of the grammar once its products are written out
(`exists_sum_of_isValid`).  So nothing that passes the automaton is lost on the way to its
expression, and the failures provided for that case never occur (`parse_iff_isValid`).

The tail of an equation is a flat list of operands.  It becomes a sum from its end on: each operand
is put in front of the sum of those behind it, and finds its place by the level of its operator.
-/

namespace FormulaCalc

namespace Equation

open Validity ImplicitProduct

variable {table : VarTable}

section Phrases

theorem exists_slotOf?_of_contains
    {c : Char}
    (h : table.contains c) :
    ∃ slot, table.slotOf? c = some slot := by
  exact Option.isSome_iff_exists.1 h

theorem exists_phrase_of_atom
    {numeral : Bool} {w : List Char}
    (h : Atom table numeral w) :
    ∃ e, Phrase table none false w e := by
  cases h with
  | numeral hn =>
      obtain ⟨v, hv⟩ := exists_read?_of_isNumeral hn
      exact ⟨_, .numeral hn hv⟩
  | letter hc =>
      obtain ⟨slot, hslot⟩ := exists_slotOf?_of_contains hc
      exact ⟨_, .letter hslot⟩

theorem exists_phrase_of_signed
    {sign : Char} {numeral : Bool} {w : List Char}
    (hsign : Token.isSign sign)
    (h : Atom table numeral w) :
    ∃ e, Phrase table none true (sign :: w) e := by
  cases h with
  | numeral hn =>
      obtain ⟨v, hv⟩ := exists_read?_of_sign hsign hn
      exact ⟨_, .signedNumeral hsign hn hv⟩
  | letter hc =>
      obtain ⟨slot, hslot⟩ := exists_slotOf?_of_contains hc
      rcases isSign_iff.1 hsign with rfl | rfl
      · exact ⟨_, .plusLetter hslot⟩
      · exact ⟨_, .minusLetter hslot⟩

/-- What the parts of an equation are in the grammar of levels, once their products are written. -/
def HasPhrase (table : VarTable) : Part → List Char → Prop
  | .group, out => ∃ e, Phrase table (some .sum) true out e
  | .operand _, out => ∃ e, Phrase table none false out e
  | .tail _, out =>
      ∀ signed u a, Phrase table none signed u a →
        ∃ e, Phrase table (some .sum) signed (u ++ out) e

/-- **Every part of an equation with its products written is a phrase.** -/
theorem hasPhrase
    {part : Part} {w out : List Char}
    (h : Starred table part w out) :
    HasPhrase table part out := by
  induction h with
  | atom hatom =>
      exact exists_phrase_of_atom hatom
  | bracketed _ ih =>
      obtain ⟨e, he⟩ := ih
      exact ⟨e, .bracketed he⟩
  | signed hsign hatom _ ih =>
      obtain ⟨a, ha⟩ := exists_phrase_of_signed hsign hatom
      exact ih true _ a ha
  | unsigned _ _ ihw ih =>
      obtain ⟨a, ha⟩ := ihw
      obtain ⟨e, he⟩ := ih false _ a ha
      exact ⟨e, he.allowSign⟩
  | nothing =>
      intro signed u a hu
      rw [List.append_nil]
      exact ⟨a, hu.loosen (tightness_le_four _)⟩
  | @operator op _ _ _ _ out behind _ _ ihw ih =>
      intro signed u a hu
      obtain ⟨b, hb⟩ := ihw
      obtain ⟨e, he⟩ := ih false _ b hb
      exact hu.exists_prepend he rfl .sum rfl (one_le_rank op.level)
  | product _ _ _ ihw ih =>
      intro signed u a hu
      obtain ⟨b, hb⟩ := ihw
      obtain ⟨e, he⟩ := ih false _ b hb
      have hmul : Level.sum.rank ≤ Operator.mul.level.rank := by
        decide
      exact hu.exists_prepend he rfl .sum rfl hmul

theorem exists_sum_of_isValid
    {text : List Char}
    (h : isValid table text = true) :
    ∃ e, Phrase table (some .sum) true (insertStars table text) e := by
  obtain ⟨out, hout⟩ := exists_starred (group_of_accepts h)
  rw [insertStars_of_starred hout]
  exact hasPhrase hout

end Phrases

section Results

variable {text : List Char}

theorem exists_build_of_isValid
    (h : isValid table text = true) :
    ∃ e, Expr.build table (insertStars table text) = .ok e := by
  obtain ⟨e, he⟩ := exists_sum_of_isValid h
  exact ⟨e, Expr.build_of_sum he⟩

theorem parse_of_build
    {e : Expr}
    (h : isValid table text = true)
    (hbuild : Expr.build table (insertStars table text) = .ok e) :
    parse table text = (some e, (starPositions table text).map .starInserted) := by
  rw [parse, if_pos h, hbuild]

theorem parse_of_not_isValid
    (h : isValid table text = false) :
    parse table text = (none, [.rejected text]) := by
  rw [parse, h]
  rfl

/-- A text has an expression if it is well formed and its written products are a sum. -/
theorem parse?_eq_some_iff
    {e : Expr} :
    parse? table text = some e ↔
      ∃ out, Starred table .group text out ∧ Phrase table (some .sum) true out e := by
  constructor
  · intro h
    cases hvalid : isValid table text with
    | false =>
        rw [parse?, parse_of_not_isValid hvalid] at h
        cases h
    | true =>
        obtain ⟨out, hout⟩ := exists_starred (group_of_accepts hvalid)
        obtain ⟨e', hbuild⟩ := exists_build_of_isValid hvalid
        rw [parse?, parse_of_build hvalid hbuild] at h
        obtain rfl := Option.some.inj h
        rw [insertStars_of_starred hout] at hbuild
        exact ⟨out, hout, Expr.sum_of_build hbuild⟩
  · rintro ⟨out, hout, he⟩
    have hvalid : isValid table text = true := accepts_of_group hout.wellFormed
    have hbuild : Expr.build table (insertStars table text) = .ok e := by
      rw [insertStars_of_starred hout]
      exact Expr.build_of_sum he
    rw [parse?, parse_of_build hvalid hbuild]

/-- A text has an expression exactly if it is well formed. -/
theorem exists_parse?_iff :
    (∃ e, parse? table text = some e) ↔ isValid table text = true := by
  constructor
  · rintro ⟨e, he⟩
    obtain ⟨out, hout, -⟩ := parse?_eq_some_iff.1 he
    exact accepts_of_group hout.wellFormed
  · intro hvalid
    obtain ⟨e, hbuild⟩ := exists_build_of_isValid hvalid
    exact ⟨e, congrArg Prod.fst (parse_of_build hvalid hbuild)⟩

theorem parse?_eq_none_iff :
    parse? table text = none ↔ isValid table text = false := by
  rw [← Bool.not_eq_true, ← exists_parse?_iff, Option.eq_none_iff_forall_ne_some, not_exists]

theorem isValid_nil :
    isValid table [] = false := by
  rw [isValid, inspect]
  rfl

theorem explain_of_build
    {e : Expr}
    (h : isValid table text = true)
    (hbuild : Expr.build table (insertStars table text) = .ok e) :
    ∃ steps, explain table text = .ok (e, steps) := by
  have hne : ¬ text.isEmpty := by
    intro hempty
    rw [List.isEmpty_iff.1 hempty, isValid_nil] at h
    cases h
  rw [explain, if_neg hne, if_pos h]
  simp only [hbuild]
  exact ⟨_, rfl⟩

theorem explain_of_not_isValid
    (h : isValid table text = false) :
    explain table text = .error .emptyText ∨
      explain table text = .error (.malformed (Token.listing table text)) := by
  rw [explain, h]
  split
  · exact .inl rfl
  · exact .inr rfl

/--
Parsing and explaining succeed on the well-formed texts and on no others, with the same expression,
and never report that a well-formed text cannot be built.
-/
theorem parse_iff_isValid
    (table : VarTable) (text : List Char) :
    (isValid table text = true →
        ∃ e, Expr.build table (insertStars table text) = .ok e) ∧
      ((∃ e, parse? table text = some e) ↔ isValid table text = true) ∧
      ((∃ e steps, explain table text = .ok (e, steps)) ↔ isValid table text = true) ∧
      (∀ e, parse? table text = some e ↔ ∃ steps, explain table text = .ok (e, steps)) ∧
      (∀ error, explain table text ≠ .error (.notBuilt error)) ∧
      ∀ unbuilt error, Event.notBuilt unbuilt error ∉ (parse table text).2 := by
  cases h : isValid table text with
  | true =>
      obtain ⟨e, hbuild⟩ := exists_build_of_isValid h
      obtain ⟨steps, hsteps⟩ := explain_of_build h hbuild
      have hparse := parse_of_build h hbuild
      rw [parse?, hparse, hsteps]
      refine ⟨fun _ => ⟨e, hbuild⟩, ?_, ?_, ?_, ?_, ?_⟩
      · simp
      · simp
      · intro e'
        simp
      · nofun
      · simp
  | false =>
      have hparse := parse_of_not_isValid h
      rw [parse?, hparse]
      rcases explain_of_not_isValid h with hexplain | hexplain <;>
      · rw [hexplain]
        simp

end Results

end Equation

end FormulaCalc
