import FormulaCalc.Proofs.Parsing
/-!
# Signs in front of a text

A sign in front of a text belongs to the first atom and to nothing else (`parse_sign_cons`).  It may
stand there only if the text starts with an atom; then a plus changes nothing, and a minus changes
the leftmost leaf of the expression: `-2^2` is the square of `-2`, and `-xy^2` negates `x` alone.

The sign is met twice.  The scanner merges it with the atom, so that the products of the text are
written as before (`starred_sign_cons`); and in the grammar of levels the first atom is followed
down to the end of the chains it opens (`Phrase.sign_cons`).
-/

namespace FormulaCalc

/-- Whether a text starts with a digit, a point or a letter of the table. -/
def Token.startsAtom (table : VarTable) (text : List Char) : Bool :=
  text.head?.any fun c => isNumeralChar c || table.contains c

namespace Expr

/-- The expression with its leftmost leaf negated, a number by its sign bit. -/
def negateFirst : Expr → Expr
  | number value => number (-value)
  | var slot letter => negation (var slot letter)
  | binary op left right => binary op left.negateFirst right

/-- What a sign in front of its text makes of an expression. -/
def withSign (sign : Char) (e : Expr) : Expr :=
  if sign = '-' then e.negateFirst else e

@[simp] theorem withSign_plus
    (e : Expr) :
    e.withSign '+' = e := by
  simp [withSign]

@[simp] theorem withSign_minus
    (e : Expr) :
    e.withSign '-' = e.negateFirst := by
  simp [withSign]

theorem withSign_binary
    (sign : Char) (op : Operator) (left right : Expr) :
    (binary op left right).withSign sign = binary op (left.withSign sign) right := by
  by_cases hminus : sign = '-'
  · simp [withSign, hminus, negateFirst]
  · simp [withSign, hminus]

end Expr

section Values

theorem Binary64.ofDecimal_true
    (d : Decimal) :
    ofDecimal true d = -ofDecimal false d := by
  ext
  · rw [neg_negative, ofDecimal, ofDecimal, ofRatio_negative, ofRatio_negative]
    rfl
  · rw [neg_magnitude, ofDecimal, ofDecimal, ofRatio_magnitude, ofRatio_magnitude]

theorem IsNumeral.read?_eq
    {n : List Char}
    (h : IsNumeral n) :
    Binary64.read? n = (Decimal.read? n).map (Binary64.ofDecimal false) := by
  obtain ⟨c, rest, rfl⟩ := List.exists_cons_of_ne_nil h.ne_nil
  obtain ⟨hminus, hplus⟩ := h.head_not_sign
  simp [Binary64.read?, hminus, hplus]

/-- A minus in front of a numeral negates its value, and a plus keeps it. -/
theorem IsNumeral.read?_sign_cons
    {sign : Char} {n : List Char} {v : Binary64}
    (h : IsNumeral n)
    (hsign : Token.isSign sign)
    (hv : Binary64.read? n = some v) :
    Binary64.read? (sign :: n) = some (if sign = '-' then -v else v) := by
  rw [h.read?_eq] at hv
  obtain ⟨d, hd, rfl⟩ := Option.map_eq_some_iff.1 hv
  rcases isSign_iff.1 hsign with rfl | rfl
  · simp [Binary64.read?, hd]
  · simp [Binary64.read?, hd, Binary64.ofDecimal_true]

end Values

section FirstAtoms

variable {table : VarTable} {text : List Char}

theorem startsAtom_append
    {u : List Char}
    (hne : u ≠ [])
    (v : List Char) :
    Token.startsAtom table (u ++ v) = Token.startsAtom table u := by
  obtain ⟨c, rest, rfl⟩ := List.exists_cons_of_ne_nil hne
  rfl

theorem symbol?_of_startsAtom
    {c : Char}
    (h : Token.startsAtom table (c :: text)) :
    Token.symbol? c = none := by
  rcases Bool.or_eq_true_iff.1 h with hnumeral | hletter
  · exact symbol?_eq_none_of_isNumeralChar hnumeral
  · exact symbol?_eq_none_of_isAlpha (VarTable.isAlpha_of_contains hletter)

theorem not_startsAtom_of_symbol?
    {c : Char} {symbol : Token.Kind × Bool}
    (hc : Token.symbol? c = some symbol) :
    ¬ Token.startsAtom table (c :: text) := by
  intro h
  rw [symbol?_of_startsAtom h] at hc
  cases hc

theorem not_startsAtom_of_isSign
    {sign : Char}
    (hsign : Token.isSign sign) :
    ¬ Token.startsAtom table (sign :: text) := by
  rcases isSign_iff.1 hsign with rfl | rfl <;> exact not_startsAtom_of_symbol? rfl

theorem Atom.startsAtom_append
    {numeral : Bool} {w : List Char}
    (h : Atom table numeral w)
    (rest : List Char) :
    Token.startsAtom table (w ++ rest) := by
  cases h with
  | numeral hn =>
      obtain ⟨c, n, rfl⟩ := List.exists_cons_of_ne_nil hn.ne_nil
      simp [Token.startsAtom, hn.chars c List.mem_cons_self]
  | letter hc =>
      simp [Token.startsAtom, hc]

end FirstAtoms

section Derivations

open Validity ImplicitProduct

variable {table : VarTable} {sign : Char} {text : List Char}

/-- A well-formed text that starts with an atom has its products written behind a sign as well. -/
theorem starred_sign_cons
    {out : List Char}
    (h : Starred table .group text out)
    (hsign : Token.isSign sign)
    (hstart : Token.startsAtom table text) :
    Starred table .group (sign :: text) (sign :: out) ∧ Token.startsAtom table out := by
  cases h with
  | signed hsign' _ _ =>
      exact absurd hstart (not_startsAtom_of_isSign hsign')
  | unsigned hw hrest =>
      cases hw with
      | atom hatom =>
          exact ⟨.signed hsign hatom hrest, hatom.startsAtom_append _⟩
      | bracketed _ =>
          exact absurd hstart (not_startsAtom_of_symbol? rfl)

theorem head_operand_not_sign
    {numeral : Bool} {w : List Char}
    (h : WellFormed table (.operand numeral) w) :
    ∃ c rest, w = c :: rest ∧ Token.isSign c = false := by
  cases h with
  | atom hatom =>
      obtain ⟨c, rest, rfl⟩ := List.exists_cons_of_ne_nil hatom.ne_nil
      exact ⟨c, rest, rfl, (head_not_symbol hatom.plain c rfl).2⟩
  | bracketed _ =>
      exact ⟨'(', _, rfl, rfl⟩

/-- Behind its sign a well-formed text starts with an atom, and is well formed without the sign. -/
theorem wellFormed_of_sign_cons
    (h : WellFormed table .group (sign :: text))
    (hsign : Token.isSign sign) :
    WellFormed table .group text ∧ Token.startsAtom table text := by
  generalize hwhole : sign :: text = whole at h
  cases h with
  | signed _ hatom hrest =>
      obtain ⟨-, rfl⟩ := List.cons.inj hwhole
      exact ⟨.unsigned (.atom hatom) hrest, hatom.startsAtom_append _⟩
  | unsigned hw _ =>
      obtain ⟨c, rest, rfl, hc⟩ := head_operand_not_sign hw
      obtain ⟨rfl, -⟩ := List.cons.inj hwhole
      rw [hsign] at hc
      cases hc

/-- **A sign in front of a phrase goes to its first atom, which is the leftmost leaf.** -/
theorem Phrase.sign_cons
    {level : Option Level} {signed : Bool} {w : List Char} {e : Expr}
    (h : Phrase table level signed w e)
    (hsign : Token.isSign sign)
    (hstart : Token.startsAtom table w) :
    Phrase table level true (sign :: w) (e.withSign sign) := by
  induction h with
  | numeral hn hv =>
      have hvalue : Phrase table none true _ _ :=
        .signedNumeral hsign hn (hn.read?_sign_cons hsign hv)
      rcases isSign_iff.1 hsign with rfl | rfl
      · simpa using hvalue
      · simpa [Expr.negateFirst] using hvalue
  | letter hslot =>
      rcases isSign_iff.1 hsign with rfl | rfl
      · simpa using Phrase.plusLetter hslot
      · simpa [Expr.negateFirst] using Phrase.minusLetter hslot
  | signedNumeral hsign' _ _ =>
      exact absurd hstart (not_startsAtom_of_isSign hsign')
  | plusLetter _ | minusLetter _ | bracketed _ _ =>
      exact absurd hstart (not_startsAtom_of_symbol? rfl)
  | operand _ ih =>
      exact .operand (ih hstart)
  | chain hu hv ih _ =>
      rw [startsAtom_append hu.ne_nil] at hstart
      rw [Expr.withSign_binary]
      exact .chain (ih hstart) hv

end Derivations

namespace Equation

open Validity ImplicitProduct

variable {table : VarTable} {sign : Char} {text : List Char}

theorem parse?_sign_cons_of_some
    {e : Expr}
    (h : parse? table text = some e)
    (hsign : Token.isSign sign)
    (hstart : Token.startsAtom table text) :
    parse? table (sign :: text) = some (e.withSign sign) := by
  obtain ⟨out, hout, he⟩ := parse?_eq_some_iff.1 h
  obtain ⟨hsigned, hfirst⟩ := starred_sign_cons hout hsign hstart
  exact parse?_eq_some_iff.2 ⟨sign :: out, hsigned, he.sign_cons hsign hfirst⟩

theorem exists_parse?_of_sign_cons
    {e : Expr}
    (h : parse? table (sign :: text) = some e)
    (hsign : Token.isSign sign) :
    (∃ e, parse? table text = some e) ∧ Token.startsAtom table text := by
  obtain ⟨out, hout, -⟩ := parse?_eq_some_iff.1 h
  obtain ⟨hgroup, hstart⟩ := wellFormed_of_sign_cons hout.wellFormed hsign
  exact ⟨exists_parse?_iff.2 (accepts_of_group hgroup), hstart⟩

/-- **With a sign in front, the texts that start with an atom have the expressions they had.** -/
theorem parse?_sign_cons
    (hsign : Token.isSign sign)
    (hstart : Token.startsAtom table text) :
    parse? table (sign :: text) = (parse? table text).map (Expr.withSign sign) := by
  cases htext : parse? table text with
  | some e =>
      exact parse?_sign_cons_of_some htext hsign hstart
  | none =>
      refine Option.eq_none_iff_forall_ne_some.2 fun e he => ?_
      obtain ⟨⟨e', he'⟩, -⟩ := exists_parse?_of_sign_cons he hsign
      rw [htext] at he'
      cases he'

/--
A text with a sign in front is accepted exactly if the text is accepted and starts with a digit, a
point or a letter of the table, whichever sign it is.  Then with a plus the expression is that of
the text, and with a minus it is that of the text with its leftmost leaf negated.
-/
theorem parse_sign_cons
    (table : VarTable) (text : List Char) :
    (∀ sign, Token.isSign sign →
      ((∃ e, parse? table (sign :: text) = some e) ↔
        (∃ e, parse? table text = some e) ∧ Token.startsAtom table text)) ∧
      (Token.startsAtom table text →
        parse? table ('+' :: text) = parse? table text ∧
          parse? table ('-' :: text) = (parse? table text).map Expr.negateFirst) := by
  refine ⟨fun sign hsign => ⟨?_, ?_⟩, fun hstart => ⟨?_, ?_⟩⟩
  · rintro ⟨e, he⟩
    exact exists_parse?_of_sign_cons he hsign
  · rintro ⟨⟨e, he⟩, hstart⟩
    exact ⟨_, parse?_sign_cons_of_some he hsign hstart⟩
  · rw [parse?_sign_cons rfl hstart, funext Expr.withSign_plus]
    exact Option.map_id'
  · rw [parse?_sign_cons rfl hstart, funext Expr.withSign_minus]

/-- The sign stays with the letter it stands in front of. -/
example :
    parse? .initial "-xy^2".toList =
      some (.binary .mul (Expr.negation (.var 0 'x'))
        (.binary .pow (.var 1 'y') (.number (.ofBits 0x4000000000000000)))) := by
  decide +kernel

end Equation

end FormulaCalc
