import FormulaCalc.ImplicitProduct
import FormulaCalc.Proofs.WellFormed
/-!
# Products written out

`Starred table part text out` follows a derivation of a well-formed text and writes a star for every
product that the text leaves out.  The main statement is `insertStars_of_starred`: the rewriting,
which sees tokens only, writes the same stars.

The rewriting is a single pass, so it is described from any place in a text (`rewriteFrom`), given
the kind of the token before; behind an operand it does not matter which kind that was.
-/

namespace FormulaCalc

namespace ImplicitProduct

open Validity

/-- Derivations of the parts of equations, with the text in which all products are written. -/
inductive Starred (table : VarTable) : Part → List Char → List Char → Prop
  | atom {numeral : Bool} {w : List Char} :
      Atom table numeral w →
      Starred table (.operand numeral) w w
  | bracketed {w out : List Char} :
      Starred table .group w out →
      Starred table (.operand false) ('(' :: w ++ [')']) ('(' :: out ++ [')'])
  | signed {sign : Char} {numeral : Bool} {w rest behind : List Char} :
      Token.isSign sign →
      Atom table numeral w →
      Starred table (.tail numeral) rest behind →
      Starred table .group (sign :: w ++ rest) (sign :: w ++ behind)
  | unsigned {numeral : Bool} {w rest out behind : List Char} :
      Starred table (.operand numeral) w out →
      Starred table (.tail numeral) rest behind →
      Starred table .group (w ++ rest) (out ++ behind)
  | nothing {afterNumeral : Bool} :
      Starred table (.tail afterNumeral) [] []
  | operator {op : Operator} {afterNumeral numeral : Bool} {w rest out behind : List Char} :
      Starred table (.operand numeral) w out →
      Starred table (.tail numeral) rest behind →
      Starred table (.tail afterNumeral) (op.symbol :: w ++ rest) (op.symbol :: out ++ behind)
  | product {afterNumeral numeral : Bool} {w rest out behind : List Char} :
      (afterNumeral && numeral) = false →
      Starred table (.operand numeral) w out →
      Starred table (.tail numeral) rest behind →
      Starred table (.tail afterNumeral) (w ++ rest) ('*' :: out ++ behind)

variable {table : VarTable}

theorem exists_starred
    {part : Part} {w : List Char}
    (h : WellFormed table part w) :
    ∃ out, Starred table part w out := by
  induction h with
  | atom hatom =>
      exact ⟨_, .atom hatom⟩
  | bracketed _ ih =>
      obtain ⟨out, hout⟩ := ih
      exact ⟨_, .bracketed hout⟩
  | signed hsign hatom _ ih =>
      obtain ⟨behind, hbehind⟩ := ih
      exact ⟨_, .signed hsign hatom hbehind⟩
  | unsigned _ _ ihw ih =>
      obtain ⟨out, hout⟩ := ihw
      obtain ⟨behind, hbehind⟩ := ih
      exact ⟨_, .unsigned hout hbehind⟩
  | nothing =>
      exact ⟨_, .nothing⟩
  | operator _ _ ihw ih =>
      obtain ⟨out, hout⟩ := ihw
      obtain ⟨behind, hbehind⟩ := ih
      exact ⟨_, .operator hout hbehind⟩
  | product hnot _ _ ihw ih =>
      obtain ⟨out, hout⟩ := ihw
      obtain ⟨behind, hbehind⟩ := ih
      exact ⟨_, .product hnot hout hbehind⟩

theorem Starred.wellFormed
    {part : Part} {w out : List Char}
    (h : Starred table part w out) :
    WellFormed table part w := by
  induction h with
  | atom hatom =>
      exact .atom hatom
  | bracketed _ ih =>
      exact .bracketed ih
  | signed hsign hatom _ ih =>
      exact .signed hsign hatom ih
  | unsigned _ _ ihw ih =>
      exact .unsigned ihw ih
  | nothing =>
      exact .nothing
  | operator _ _ ihw ih =>
      exact .operator ihw ih
  | product hnot _ _ ihw ih =>
      exact .product hnot ihw ih

/-- A text in which all products are written is well formed as well. -/
theorem Starred.wellFormed_written
    {part : Part} {w out : List Char}
    (h : Starred table part w out) :
    WellFormed table part out := by
  induction h with
  | atom hatom =>
      exact .atom hatom
  | bracketed _ ih =>
      exact .bracketed ih
  | signed hsign hatom _ ih =>
      exact .signed hsign hatom ih
  | unsigned _ _ ihw ih =>
      exact .unsigned ihw ih
  | nothing =>
      exact .nothing
  | operator _ _ ihw ih =>
      exact .operator ihw ih
  | @product afterNumeral _ _ _ _ _ _ _ _ ihw ih =>
      exact @WellFormed.operator table .mul afterNumeral _ _ _ ihw ih

section Rewriting

/-- Whether a group starts behind a token of the given kind, or at the start of the text. -/
def atGroupStart (before : Option Token.Kind) : Bool :=
  before.all (· = .opening)

/-- The rewriting of a text from a place on, given the kind of the token before it. -/
def rewriteFrom (table : VarTable) (before : Option Token.Kind) (text : List Char) : List Char :=
  writeTokens before (Token.walk table (atGroupStart before) text).1
    ++ (Token.walk table (atGroupStart before) text).2

/-- The star in front of an operand, given the kind of the token before it. -/
def starBefore (before : Option Token.Kind) : List Char :=
  if needsStar before .opening then ['*'] else []

theorem insertStars_eq_rewriteFrom
    (table : VarTable) (text : List Char) :
    insertStars table text = rewriteFrom table none text := by
  rfl

theorem walk_of_none
    {flag : Bool} {text : List Char}
    (hscan : Token.scan? table flag text = none) :
    Token.walk table flag text = ([], text) := by
  rw [Token.walk]
  split
  · rfl
  · next hfound =>
      rw [hscan] at hfound
      cases hfound

theorem walk_of_scan?
    {flag : Bool} {text rest : List Char} {token : Token}
    (hscan : Token.scan? table flag text = some (token, rest)) :
    Token.walk table flag text =
      (token :: (Token.walk table (token.kind = .opening) rest).1,
        (Token.walk table (token.kind = .opening) rest).2) := by
  rw [Token.walk]
  split
  · next hnone =>
      rw [hscan] at hnone
      cases hnone
  · next found behind hfound =>
      rw [hscan] at hfound
      obtain ⟨rfl, rfl⟩ := Prod.mk.inj (Option.some.inj hfound)
      rfl

/-- One step of the rewriting. -/
theorem rewriteFrom_step
    {before : Option Token.Kind} {text rest : List Char} {token : Token}
    (hscan : Token.scan? table (atGroupStart before) text = some (token, rest)) :
    rewriteFrom table before text =
      (if needsStar before token.kind then ['*'] else []) ++ token.text
        ++ rewriteFrom table (some token.kind) rest := by
  rw [rewriteFrom, walk_of_scan? hscan, writeTokens, List.append_assoc]
  rfl

theorem rewriteFrom_nil
    (before : Option Token.Kind) :
    rewriteFrom table before [] = [] := by
  rw [rewriteFrom, walk_of_none rfl]
  rfl

/-- All operands are kept apart from what is before them in the same way. -/
theorem needsStar_of_operand
    (before : Option Token.Kind) {kind : Token.Kind}
    (h : kind = .opening ∨ ∃ numeral, kind = atomKind numeral) :
    (if needsStar before kind then ['*'] else []) = starBefore before := by
  rcases h with rfl | ⟨numeral, rfl⟩
  · rfl
  · rw [starBefore]
    cases numeral <;> cases before <;> simp [needsStar, joins, atomKind]

theorem needsStar_eq_false
    (before : Option Token.Kind) {kind : Token.Kind}
    (h : kind = .closing ∨ ∃ level, kind = operatorKind level) :
    needsStar before kind = false := by
  rcases h with rfl | ⟨level, rfl⟩
  · cases before <;> simp [needsStar, joins]
  · cases level <;> cases before <;> simp [needsStar, joins, operatorKind]

/-- Behind an atom the rewriting goes on as behind a group. -/
theorem rewriteFrom_after_atom
    (numeral : Bool) (text : List Char) :
    rewriteFrom table (some (atomKind numeral)) text = rewriteFrom table (some .closing) text := by
  have hflag : atGroupStart (some (atomKind numeral)) = atGroupStart (some .closing) := by
    cases numeral <;> rfl
  have hwrite (tokens : List Token) :
      writeTokens (some (atomKind numeral)) tokens = writeTokens (some .closing) tokens := by
    cases tokens with
    | nil =>
        rfl
    | cons token rest =>
        cases numeral <;> simp [writeTokens, needsStar, joins, atomKind]
  rw [rewriteFrom, rewriteFrom, hflag, hwrite]

/-- What the rewriting does along a part of an equation, with any text behind it. -/
def WritesPart (table : VarTable) : Part → List Char → List Char → Prop
  | .group, w, out =>
      ∀ before rest, atGroupStart before = true → AtGroupEnd rest →
        rewriteFrom table before (w ++ rest) = out ++ rewriteFrom table (some .closing) rest
  | .operand numeral, w, out =>
      ∀ before rest, (numeral = true → NoNumeralAhead rest) →
        rewriteFrom table before (w ++ rest) =
          starBefore before ++ out ++ rewriteFrom table (some .closing) rest
  | .tail _, w, out =>
      ∀ rest, AtGroupEnd rest →
        rewriteFrom table (some .closing) (w ++ rest) =
          out ++ rewriteFrom table (some .closing) rest

theorem starBefore_at_group_start
    {before : Option Token.Kind}
    (h : atGroupStart before = true) :
    starBefore before = [] := by
  cases before with
  | none =>
      rfl
  | some kind =>
      obtain rfl : kind = .opening := by
        simpa [atGroupStart] using h
      rfl

/-- **The rewriting writes the stars of every part of an equation.** -/
theorem writesPart
    {part : Part} {w out : List Char}
    (h : Starred table part w out) :
    WritesPart table part w out := by
  induction h with
  | @atom numeral w hatom =>
      intro before rest hrest
      rw [rewriteFrom_step (scan?_of_atom hatom hrest (atGroupStart before)),
        needsStar_of_operand before (.inr ⟨numeral, rfl⟩), rewriteFrom_after_atom]
  | @bracketed w out _ ih =>
      intro before rest _
      have hassoc : '(' :: w ++ [')'] ++ rest = '(' :: (w ++ ')' :: rest) := by
        simp
      have hinner : rewriteFrom table (some .opening) (w ++ ')' :: rest) =
          out ++ rewriteFrom table (some .closing) (')' :: rest) :=
        ih (some .opening) (')' :: rest) rfl (.inr ⟨rest, rfl⟩)
      have hclosing : rewriteFrom table (some .closing) (')' :: rest) =
          ')' :: rewriteFrom table (some .closing) rest :=
        rewriteFrom_step (scan?_closing _)
      rw [hassoc, rewriteFrom_step (scan?_opening _), hinner, hclosing, starBefore]
      simp
  | @signed sign numeral w rest behind hsign hatom hrest ih =>
      intro before after hstart hend
      have hahead := noNumeralAhead_tail hrest.wellFormed hend
      have hscan : Token.scan? table (atGroupStart before) (sign :: w ++ (rest ++ after)) =
          some (⟨atomKind numeral, true, sign :: w⟩, rest ++ after) := by
        rw [hstart]
        exact scan?_of_signed hsign hatom hahead
      rw [List.append_assoc, rewriteFrom_step hscan,
        needsStar_of_operand before (.inr ⟨numeral, rfl⟩), starBefore_at_group_start hstart,
        rewriteFrom_after_atom, ih after hend]
      simp
  | @unsigned numeral w rest out behind _ hrest ihw ih =>
      intro before after hstart hend
      have hahead := noNumeralAhead_tail hrest.wellFormed hend
      rw [List.append_assoc, ihw before (rest ++ after) hahead,
        starBefore_at_group_start hstart, ih after hend]
      simp
  | nothing =>
      intro rest _
      rfl
  | @operator op afterNumeral numeral w rest out behind _ hrest ihw ih =>
      intro after hend
      have hahead := noNumeralAhead_tail hrest.wellFormed hend
      obtain ⟨inverted, hscan⟩ : ∃ inverted,
          Token.scan? table (atGroupStart (some .closing)) (op.symbol :: (w ++ (rest ++ after))) =
            some (⟨operatorKind op.level, inverted, [op.symbol]⟩, w ++ (rest ++ after)) :=
        scan?_operator op
      have hassoc : op.symbol :: w ++ rest ++ after = op.symbol :: (w ++ (rest ++ after)) := by
        simp
      have hstar : starBefore (some (operatorKind op.level)) = [] := by
        cases op <;> rfl
      rw [hassoc, rewriteFrom_step hscan, needsStar_eq_false _ (.inr ⟨op.level, rfl⟩),
        ihw (some (operatorKind op.level)) (rest ++ after) hahead, hstar, ih after hend]
      simp
  | @product afterNumeral numeral w rest out behind _ _ hrest ihw ih =>
      intro after hend
      have hahead := noNumeralAhead_tail hrest.wellFormed hend
      have hstar : starBefore (some .closing) = ['*'] := by
        rfl
      rw [List.append_assoc, ihw (some .closing) (rest ++ after) hahead, hstar, ih after hend]
      simp

/-- The rewriting of a well-formed text writes the products of its derivation. -/
theorem insertStars_of_starred
    {text out : List Char}
    (h : Starred table .group text out) :
    insertStars table text = out := by
  have hwrites : rewriteFrom table none (text ++ []) =
      out ++ rewriteFrom table (some .closing) [] :=
    writesPart h none [] rfl (.inl rfl)
  rw [List.append_nil, rewriteFrom_nil, List.append_nil] at hwrites
  rw [insertStars_eq_rewriteFrom]
  exact hwrites

end Rewriting

section Positions

theorem length_writeTokens
    (before : Option Token.Kind) (position : Nat) (tokens : List Token) :
    (writeTokens before tokens).length =
      (tokens.flatMap Token.text).length + (positionsFrom before position tokens).length := by
  induction tokens generalizing before position with
  | nil =>
      rfl
  | cons token rest ih =>
      simp only [writeTokens, positionsFrom, List.flatMap_cons, List.length_append,
        ih (some token.kind) (position + token.text.length)]
      split <;> simp only [List.length_cons, List.length_nil] <;> omega

/-- Each position stands for one star. -/
theorem length_insertStars
    (table : VarTable) (text : List Char) :
    (insertStars table text).length = text.length + (starPositions table text).length := by
  have htext := congrArg List.length (Token.flatMap_tokens table text)
  rw [List.length_append] at htext
  rw [insertStars, List.length_append, length_writeTokens none 0, ← htext, starPositions]
  omega

theorem starPositions_eq_nil
    {text : List Char}
    (h : insertStars table text = text) :
    starPositions table text = [] := by
  have hlength := length_insertStars table text
  rw [h] at hlength
  exact List.length_eq_zero_iff.1 (by omega)

end Positions

end ImplicitProduct

end FormulaCalc
