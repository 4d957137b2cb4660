import FormulaCalc.Proofs.Matching
import FormulaCalc.Proofs.Numeral
import FormulaCalc.VarTable
/-!
# The grammar of precedence levels

Expressions are written in three levels over atoms, and the chains of each level lean to the right:

    sum      ::=  product  |  product (+ or -) sum
    product  ::=  power    |  power (* or /) product
    power    ::=  atom     |  atom ^ power
    atom     ::=  numeral  |  letter  |  ( sum )

The first atom of a sum may also be a numeral or a letter with a sign in front; no other atom may.
A sum stands at the start of a text, behind an opening bracket and behind an additive operator, so
`2+-3` belongs to the grammar and `2*-3` does not.

`Phrase table level signed text e` says that `text` is written in the grammar as `e`.  Atoms have no
level, and `signed` says whether the first atom may carry a sign.  Everything here is about the
grammar alone: its words are balanced, a phrase of a level is one of every looser level, and a
further atom can be put in front of a chain.
-/

namespace FormulaCalc

/-- The level of the operands of an operator; the operands of powers are atoms. -/
def Level.operand : Level → Option Level
  | .sum => some .product
  | .product => some .power
  | .power => none

/-- How tightly the phrases of a level bind; atoms bind tightest. -/
def tightness : Option Level → Nat
  | none => 4
  | some level => level.rank

theorem tightness_operand
    (level : Level) :
    tightness level.operand = level.rank + 1 := by
  cases level <;> rfl

/-- What binds at least as tightly as the operands of a level binds more tightly than the level. -/
theorem rank_lt_of_tightness_operand_le
    {level : Level} {n : Nat}
    (h : tightness level.operand ≤ n) :
    level.rank < n := by
  rw [tightness_operand] at h
  exact h

theorem tightness_le_four
    (level : Option Level) :
    tightness level ≤ 4 := by
  cases level with
  | none =>
      exact Nat.le_refl 4
  | some level =>
      cases level <;> decide

theorem one_le_rank
    (level : Level) :
    1 ≤ level.rank := by
  cases level <;> decide

theorem level_eq_of_rank_eq
    {level other : Level}
    (h : level.rank = other.rank) :
    level = other := by
  cases level <;> cases other <;> first | rfl | cases h

/-- Nothing binds less tightly than a sum. -/
theorem tightness_sum_le
    (level : Option Level) :
    tightness (some .sum) ≤ tightness level := by
  cases level with
  | none =>
      decide
  | some level =>
      exact one_le_rank level

/-- A looser level than another has operands with a level, and these bind no tighter than it. -/
theorem exists_operand_of_rank_lt
    {level other : Level}
    (hle : level.rank ≤ other.rank)
    (hne : level ≠ other) :
    ∃ inner, level.operand = some inner ∧ inner.rank ≤ other.rank := by
  cases level with
  | sum =>
      refine ⟨.product, rfl, ?_⟩
      cases other <;> first | exact absurd rfl hne | decide
  | product =>
      refine ⟨.power, rfl, ?_⟩
      cases other <;> first | exact absurd rfl hne | exact absurd hle (by decide) | decide
  | power =>
      cases other <;> first | exact absurd rfl hne | exact absurd hle (by decide)

/-- Derivations of expressions from texts. -/
inductive Phrase (table : VarTable) : Option Level → Bool → List Char → Expr → Prop
  | numeral {signed : Bool} {n : List Char} {v : Binary64} :
      IsNumeral n →
      Binary64.read? n = some v →
      Phrase table none signed n (.number v)
  | signedNumeral {sign : Char} {n : List Char} {v : Binary64} :
      Token.isSign sign →
      IsNumeral n →
      Binary64.read? (sign :: n) = some v →
      Phrase table none true (sign :: n) (.number v)
  | letter {signed : Bool} {c : Char} {slot : Nat} :
      table.slotOf? c = some slot →
      Phrase table none signed [c] (.var slot c)
  | plusLetter {c : Char} {slot : Nat} :
      table.slotOf? c = some slot →
      Phrase table none true ['+', c] (.var slot c)
  | minusLetter {c : Char} {slot : Nat} :
      table.slotOf? c = some slot →
      Phrase table none true ['-', c] (Expr.negation (.var slot c))
  | bracketed {signed : Bool} {w : List Char} {e : Expr} :
      Phrase table (some .sum) true w e →
      Phrase table none signed ('(' :: w ++ [')']) e
  | operand {level : Level} {signed : Bool} {w : List Char} {e : Expr} :
      Phrase table level.operand signed w e →
      Phrase table (some level) signed w e
  | chain {op : Operator} {signed : Bool} {u v : List Char} {a b : Expr} :
      Phrase table op.level.operand signed u a →
      Phrase table (some op.level) (op.level = .sum) v b →
      Phrase table (some op.level) signed (u ++ op.symbol :: v) (.binary op a b)

theorem contains_of_slotOf?
    {table : VarTable} {c : Char} {slot : Nat}
    (h : table.slotOf? c = some slot) :
    table.contains c := by
  exact Option.isSome_iff_exists.2 ⟨slot, h⟩

theorem isAlpha_of_slotOf?
    {table : VarTable} {c : Char} {slot : Nat}
    (h : table.slotOf? c = some slot) :
    c.isAlpha := by
  exact VarTable.isAlpha_of_contains (contains_of_slotOf? h)

theorem plain_of_slotOf?
    {table : VarTable} {c : Char} {slot : Nat}
    (h : table.slotOf? c = some slot) :
    ∀ d ∈ [c], Token.symbol? d = none := by
  intro d hd
  rw [List.mem_singleton.1 hd]
  exact symbol?_eq_none_of_isAlpha (isAlpha_of_slotOf? h)

theorem symbol_ne_brackets
    (op : Operator) :
    op.symbol ≠ '(' ∧ op.symbol ≠ ')' := by
  cases op <;> decide

namespace Phrase

variable {table : VarTable} {level : Option Level} {signed : Bool} {w : List Char} {e : Expr}

theorem ne_nil
    (h : Phrase table level signed w e) :
    w ≠ [] := by
  induction h with
  | numeral hn _ =>
      exact hn.ne_nil
  | operand _ ih =>
      exact ih
  | _ =>
      simp

theorem balanced
    (h : Phrase table level signed w e) :
    Balanced w := by
  have hword (w : List Char) (hplain : ∀ c ∈ w, Token.symbol? c = none) : Balanced w :=
    .of_plain fun c hc => ne_brackets_of_symbol?_eq_none (hplain c hc)
  induction h with
  | numeral hn _ =>
      exact hword _ hn.plain
  | signedNumeral hsign hn _ =>
      rcases isSign_iff.1 hsign with rfl | rfl <;>
        exact .plain (by decide) (by decide) (hword _ hn.plain)
  | letter hslot =>
      exact hword _ (plain_of_slotOf? hslot)
  | plusLetter hslot | minusLetter hslot =>
      exact .plain (by decide) (by decide) (hword _ (plain_of_slotOf? hslot))
  | bracketed _ ih =>
      exact ih.bracketed
  | operand _ ih =>
      exact ih
  | @chain op _ _ _ _ _ _ _ ihu ihv =>
      obtain ⟨hopen, hclose⟩ := symbol_ne_brackets op
      exact ihu.append (.plain hopen hclose ihv)

/-- Only a phrase that may carry a sign starts with one. -/
theorem head_not_sign
    (h : Phrase table level signed w e)
    (hsigned : signed = false) :
    ∀ c ∈ w.head?, Token.isSign c = false := by
  have hword (w : List Char) (hplain : ∀ c ∈ w, Token.symbol? c = none) :
      ∀ c ∈ w.head?, Token.isSign c = false :=
    fun c hc => (head_not_symbol hplain c hc).2
  induction h with
  | numeral hn _ =>
      exact hword _ hn.plain
  | letter hslot =>
      exact hword _ (plain_of_slotOf? hslot)
  | signedNumeral | plusLetter | minusLetter =>
      cases hsigned
  | bracketed =>
      intro c hc
      obtain rfl : '(' = c := by simpa using hc
      rfl
  | operand _ ih =>
      exact ih hsigned
  | chain hu _ ih _ =>
      obtain ⟨c, rest, rfl⟩ := List.exists_cons_of_ne_nil hu.ne_nil
      exact ih hsigned

theorem signed_of_head_sign
    {c : Char}
    (h : Phrase table level signed w e)
    (hc : c ∈ w.head?)
    (hsign : Token.isSign c) :
    signed = true := by
  cases signed with
  | true =>
      rfl
  | false =>
      rw [h.head_not_sign rfl c hc] at hsign
      cases hsign

/-- A sign is allowed where it is not needed. -/
theorem allowSign
    (h : Phrase table level signed w e) :
    Phrase table level true w e := by
  induction h with
  | numeral hn hv =>
      exact .numeral hn hv
  | signedNumeral hsign hn hv =>
      exact .signedNumeral hsign hn hv
  | letter hslot =>
      exact .letter hslot
  | plusLetter hslot =>
      exact .plusLetter hslot
  | minusLetter hslot =>
      exact .minusLetter hslot
  | bracketed hw _ =>
      exact .bracketed hw
  | operand _ ih =>
      exact .operand ih
  | chain _ hv ih _ =>
      exact .chain ih hv

theorem allowSign_of_false
    (h : Phrase table level false w e)
    (signed : Bool) :
    Phrase table level signed w e := by
  cases signed with
  | false =>
      exact h
  | true =>
      exact h.allowSign

/-- A phrase of a level is one of every looser level. -/
theorem loosen
    {looser : Option Level}
    (h : Phrase table level signed w e)
    (hle : tightness looser ≤ tightness level) :
    Phrase table looser signed w e := by
  have hpower (h : Phrase table none signed w e) : Phrase table (some .power) signed w e :=
    .operand h
  have hproduct (h : Phrase table (some .power) signed w e) :
      Phrase table (some .product) signed w e :=
    .operand h
  have hsum (h : Phrase table (some .product) signed w e) :
      Phrase table (some .sum) signed w e :=
    .operand h
  rcases level with _ | _ | _ | _ <;> rcases looser with _ | _ | _ | _ <;>
    first
      | exact absurd hle (by decide)
      | grind

/--
An atom and an operator can be put in front of a chain whose operators do not bind tighter than the
new one.
-/
theorem exists_prepend
    {op : Operator} {flag : Bool} {u : List Char} {a b : Expr}
    (hu : Phrase table none signed u a)
    (hw : Phrase table level flag w b)
    (hflag : flag = false)
    (looser : Level)
    (hlooser : level = some looser)
    (hle : looser.rank ≤ op.level.rank) :
    ∃ e, Phrase table (some looser) signed (u ++ op.symbol :: w) e := by
  have hhead : Phrase table op.level.operand signed u a :=
    hu.loosen (tightness_le_four _)
  -- in front of a chain of its own level the new operator takes the whole chain
  have hsame (w : List Char) (b : Expr) (hw : Phrase table (some op.level) false w b) :
      ∃ e, Phrase table (some op.level) signed (u ++ op.symbol :: w) e :=
    ⟨_, .chain hhead (hw.allowSign_of_false _)⟩
  induction hw generalizing looser with
  | @operand outer _ w _ hw ih =>
      obtain rfl := Option.some.inj hlooser
      subst hflag
      by_cases heq : outer = op.level
      · subst heq
        exact hsame w _ (.operand hw)
      · obtain ⟨inner, hinner, hrank⟩ := exists_operand_of_rank_lt hle heq
        obtain ⟨e, he⟩ := ih rfl inner hinner hrank
        exact ⟨e, .operand (hinner ▸ he)⟩
  | @chain other _ v w _ c hv hw ih _ =>
      obtain rfl := Option.some.inj hlooser
      subst hflag
      by_cases heq : other.level = op.level
      · have hwhole := Phrase.chain hv hw
        rw [heq] at hwhole ⊢
        exact hsame _ _ hwhole
      · obtain ⟨inner, hinner, hrank⟩ := exists_operand_of_rank_lt hle heq
        obtain ⟨e, he⟩ := ih rfl inner hinner hrank
        have hchain := Phrase.chain (hinner ▸ he) hw
        exact ⟨.binary other e c, by simpa using hchain⟩
  | _ =>
      cases hlooser

end Phrase

end FormulaCalc
