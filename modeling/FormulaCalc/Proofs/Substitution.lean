import FormulaCalc.Proofs.Adjacency
import FormulaCalc.Proofs.Parsing
/-!
# Substitution

Replacing a letter by a bracketed text replaces the variable by the expression of that text
(`parse_substitute`).  The letter must not carry a sign: `-x` is one token and `-(x)` is none.

A bracketed text is an operand like the letter, in the grammar of equations and in the grammar of
levels; so both derivations go over to the new text rule by rule, except where a rule merges a sign
with the letter.  Whether that happens is read off the modes of `Adjacency`: `Mode.Spares` says that
the letter is never met in the mode behind a sign.
-/

namespace FormulaCalc

namespace Validity

/-- Whether a letter never stands behind a sign that opens a group, read from a mode on. -/
def Mode.Spares (letter : Char) : Mode → List Char → Prop
  | _, [] => True
  | mode, c :: rest =>
      (mode = .sign → c ≠ letter) ∧ ∀ next, mode.follow c = some next → next.Spares letter rest

namespace Mode

variable {letter : Char} {mode : Mode} {u w : List Char}

theorem spares_cons_of_follow
    {next : Mode} {c : Char}
    (hmode : mode ≠ .sign)
    (hfollow : mode.follow c = some next) :
    mode.Spares letter (c :: w) ↔ next.Spares letter w := by
  rw [Spares, hfollow]
  simp [hmode]

theorem spares_append :
    mode.Spares letter (u ++ w) ↔
      mode.Spares letter u ∧ ∀ next, mode.along u = some next → next.Spares letter w := by
  induction u generalizing mode with
  | nil =>
      have halong : mode.along [] = some mode := rfl
      simp [Spares, halong]
  | cons c u ih =>
      rw [List.cons_append, Spares, Spares, along_cons]
      cases mode.follow c with
      | none =>
          simp
      | some next =>
          simp [ih, and_assoc]

theorem spares_append_of_along
    {next : Mode}
    (halong : mode.along u = some next) :
    mode.Spares letter (u ++ w) ↔ mode.Spares letter u ∧ next.Spares letter w := by
  rw [spares_append, halong]
  simp

theorem spares_of_plain
    (hmode : mode ≠ .sign)
    (hplain : ∀ c ∈ w, Token.symbol? c = none) :
    mode.Spares letter w := by
  induction w generalizing mode with
  | nil =>
      trivial
  | cons c w ih =>
      obtain ⟨hc, hw⟩ := List.forall_mem_cons.1 hplain
      exact (spares_cons_of_follow hmode (mode.follow_of_plain hc)).2 (ih nofun hw)

/-- Around a group it does not matter how it was reached. -/
theorem spares_bracketed
    (hmode : mode ≠ .sign)
    (halong : Mode.opening.along w = some .operand) :
    mode.Spares letter ('(' :: w ++ [')']) ↔ Mode.opening.Spares letter w := by
  have hfollow : mode.follow '(' = some .opening := by
    cases mode <;> first | rfl | exact absurd rfl hmode
  have hclosing : Mode.operand.Spares letter [')'] := by
    simp [Spares]
  rw [List.cons_append, spares_cons_of_follow hmode hfollow, spares_append_of_along halong]
  exact and_iff_left hclosing

theorem along_operator
    (op : Operator) (text : List Char) :
    Mode.operand.along (op.symbol :: text) = Mode.operator.along text := by
  have hfollow : Mode.operand.follow op.symbol = some .operator := by
    cases op <;> rfl
  rw [along_cons, hfollow, Option.bind_some]

theorem spares_operator
    (op : Operator) :
    Mode.operand.Spares letter (op.symbol :: w) ↔ Mode.operator.Spares letter w := by
  refine spares_cons_of_follow nofun ?_
  cases op <;> rfl

theorem spares_signed
    {sign : Char}
    (hsign : Token.isSign sign)
    (hne : u ≠ [])
    (hplain : ∀ c ∈ u, Token.symbol? c = none) :
    Mode.opening.Spares letter (sign :: u ++ w) ↔
      Mode.sign.Spares letter u ∧ Mode.operand.Spares letter w := by
  have hfollow : Mode.opening.follow sign = some .sign := by
    rcases isSign_iff.1 hsign with rfl | rfl <;> rfl
  have hopening : Mode.opening ≠ .sign := by
    nofun
  rw [List.cons_append, spares_cons_of_follow hopening hfollow,
    spares_append_of_along (along_of_plain .sign hne hplain)]

/-- Where the letter is not spared, the mode before it is the one behind a sign. -/
theorem exists_sign_of_not_spares
    (h : ¬ mode.Spares letter w) :
    ∃ before behind, w = before ++ letter :: behind ∧ mode.along before = some .sign := by
  induction w generalizing mode with
  | nil =>
      exact absurd trivial h
  | cons c w ih =>
      by_cases hhere : mode = .sign ∧ c = letter
      · obtain ⟨rfl, rfl⟩ := hhere
        exact ⟨[], w, rfl, rfl⟩
      · cases hfollow : mode.follow c with
        | none =>
            refine absurd ⟨fun hmode hc => hhere ⟨hmode, hc⟩, fun next hnext => ?_⟩ h
            rw [hfollow] at hnext
            cases hnext
        | some next =>
            have hrest : ¬ next.Spares letter w := by
              intro hrest
              refine h ⟨fun hmode hc => hhere ⟨hmode, hc⟩, fun next' hnext => ?_⟩
              rw [hfollow] at hnext
              exact Option.some.inj hnext ▸ hrest
            obtain ⟨before, behind, rfl, halong⟩ := ih hrest
            exact ⟨c :: before, behind, rfl, by rw [along_cons, hfollow]; exact halong⟩

/-- The last step along a text that is not empty. -/
theorem exists_follow_last
    {last : Mode}
    (h : mode.along w = some last)
    (hne : w ≠ []) :
    ∃ before c middle,
      w = before ++ [c] ∧ mode.along before = some middle ∧ middle.follow c = some last := by
  have hw := (List.dropLast_concat_getLast hne).symm
  rw [hw, along_append, Option.bind_eq_some_iff] at h
  obtain ⟨middle, hbefore, hlast⟩ := h
  rw [along_cons, Option.bind_eq_some_iff] at hlast
  obtain ⟨last', hfollow, hlast⟩ := hlast
  obtain rfl : last' = last := Option.some.inj hlast
  exact ⟨w.dropLast, w.getLast hne, middle, hw, hbefore, hfollow⟩

theorem follow_eq_sign
    {c : Char}
    (h : mode.follow c = some .sign) :
    mode = .opening ∧ Token.isSign c := by
  cases hsymbol : Token.symbol? c with
  | none =>
      rw [mode.follow_of_plain hsymbol] at h
      cases h
  | some symbol =>
      rcases symbol?_cases hsymbol with ⟨rfl, -⟩ | ⟨rfl, -⟩ | ⟨op, rfl, -⟩
      · cases mode <;> cases h
      · cases mode <;> cases h
      · cases op <;> cases mode <;> cases h <;> exact ⟨rfl, rfl⟩

theorem follow_eq_opening
    {c : Char}
    (h : mode.follow c = some .opening) :
    c = '(' := by
  cases hsymbol : Token.symbol? c with
  | none =>
      rw [mode.follow_of_plain hsymbol] at h
      cases h
  | some symbol =>
      rcases symbol?_cases hsymbol with ⟨rfl, -⟩ | ⟨rfl, -⟩ | ⟨op, rfl, -⟩
      · rfl
      · cases mode <;> cases h
      · cases op <;> cases mode <;> cases h

/-- A text that merges no sign with the letter where a group starts spares the letter. -/
theorem spares_of_no_merged_sign
    {text : List Char}
    (h : ∀ sign, Token.isSign sign →
      ¬ [sign, letter] <+: text ∧ ¬ ['(', sign, letter] <:+: text) :
    Mode.opening.Spares letter text := by
  refine Classical.byContradiction fun hnot => ?_
  obtain ⟨before, behind, rfl, halong⟩ := exists_sign_of_not_spares hnot
  have hne : before ≠ [] := by
    rintro rfl
    cases halong
  obtain ⟨start, sign, middle, rfl, hstart, hfollow⟩ := exists_follow_last halong hne
  obtain ⟨rfl, hsign⟩ := follow_eq_sign hfollow
  by_cases hnil : start = []
  · subst hnil
    exact (h sign hsign).1 ⟨behind, rfl⟩
  · obtain ⟨outer, c, _, rfl, -, hopening⟩ := exists_follow_last hstart hnil
    obtain rfl := follow_eq_opening hopening
    exact (h sign hsign).2 ⟨outer, behind, by simp⟩

end Mode

end Validity

open Validity ImplicitProduct

/-- The text with a bracketed text in place of every occurrence of a letter. -/
def substitute (letter : Char) (replacement text : List Char) : List Char :=
  text.flatMap fun c => if c = letter then '(' :: replacement ++ [')'] else [c]

/-- The expression with another one in place of every variable of a letter. -/
def Expr.replaceVar : Expr → Char → Expr → Expr
  | number value, _, _ => number value
  | var slot c, letter, replacement => if c = letter then replacement else var slot c
  | binary op left right, letter, replacement =>
      binary op (left.replaceVar letter replacement) (right.replaceVar letter replacement)

section Texts

variable {letter : Char} {replacement : List Char}

theorem substitute_append
    (u v : List Char) :
    substitute letter replacement (u ++ v) =
      substitute letter replacement u ++ substitute letter replacement v := by
  exact List.flatMap_append

theorem substitute_cons_of_ne
    {c : Char} {text : List Char}
    (h : c ≠ letter) :
    substitute letter replacement (c :: text) = c :: substitute letter replacement text := by
  rw [substitute, List.flatMap_cons, if_neg h]
  rfl

theorem substitute_self :
    substitute letter replacement [letter] = '(' :: replacement ++ [')'] := by
  rw [substitute, List.flatMap_cons, if_pos rfl, List.flatMap_nil, List.append_nil]

theorem substitute_eq_self
    {text : List Char}
    (h : ∀ c ∈ text, c ≠ letter) :
    substitute letter replacement text = text := by
  induction text with
  | nil =>
      rfl
  | cons c text ih =>
      obtain ⟨hc, htext⟩ := List.forall_mem_cons.1 h
      rw [substitute_cons_of_ne hc, ih htext]

theorem substitute_cons_of_symbol
    {c : Char} {symbol : Token.Kind × Bool} {text : List Char}
    (hletter : letter.isAlpha)
    (hc : Token.symbol? c = some symbol) :
    substitute letter replacement (c :: text) = c :: substitute letter replacement text := by
  refine substitute_cons_of_ne ?_
  rintro rfl
  rw [symbol?_eq_none_of_isAlpha hletter] at hc
  cases hc

theorem substitute_bracketed
    (hletter : letter.isAlpha)
    (text : List Char) :
    substitute letter replacement ('(' :: text ++ [')']) =
      '(' :: substitute letter replacement text ++ [')'] := by
  have hclosing : substitute letter replacement [')'] = [')'] :=
    substitute_cons_of_symbol hletter rfl
  rw [List.cons_append, substitute_cons_of_symbol hletter rfl, substitute_append, hclosing]
  rfl

theorem substitute_operator
    (hletter : letter.isAlpha)
    (op : Operator) (text : List Char) :
    substitute letter replacement (op.symbol :: text) =
      op.symbol :: substitute letter replacement text := by
  obtain ⟨inverted, hsymbol⟩ := symbol?_symbol op
  exact substitute_cons_of_symbol hletter hsymbol

theorem substitute_sign
    {sign : Char}
    (hletter : letter.isAlpha)
    (hsign : Token.isSign sign)
    (text : List Char) :
    substitute letter replacement (sign :: text) =
      sign :: substitute letter replacement text := by
  rcases isSign_iff.1 hsign with rfl | rfl
  · exact substitute_operator hletter .add text
  · exact substitute_operator hletter .sub text

theorem substitute_numeral
    {n : List Char}
    (hletter : letter.isAlpha)
    (hn : IsNumeral n) :
    substitute letter replacement n = n := by
  refine substitute_eq_self fun c hc => ?_
  rintro rfl
  have hchar := hn.chars c hc
  rw [isNumeralChar_eq_false_of_isAlpha hletter] at hchar
  cases hchar

end Texts

section Derivations

variable {table : VarTable} {letter : Char} {replacement out : List Char}

theorem spares_operand_append
    {numeral : Bool} {w rest : List Char}
    (mode : Mode)
    (hw : WellFormed table (.operand numeral) w)
    (hmode : mode ≠ .sign) :
    mode.Spares letter (w ++ rest) ↔
      mode.Spares letter w ∧ Mode.operand.Spares letter rest := by
  exact Mode.spares_append_of_along (along_of_wellFormed hw hmode)

theorem spares_group
    {w : List Char} {mode : Mode}
    (hw : WellFormed table .group w)
    (hmode : mode ≠ .sign) :
    mode.Spares letter ('(' :: w ++ [')']) ↔ Mode.opening.Spares letter w := by
  exact Mode.spares_bracketed hmode (along_of_wellFormed hw rfl)

/-- Written products spare the letter where the text does. -/
theorem spares_written
    {part : Part} {w out : List Char} {mode mode' : Mode}
    (h : Starred table part w out)
    (hspares : mode.Spares letter w)
    (hmode : part.StartsIn mode)
    (hmode' : part.StartsIn mode') :
    mode'.Spares letter out := by
  induction h generalizing mode mode' with
  | atom hatom =>
      exact Mode.spares_of_plain hmode' hatom.plain
  | bracketed hinner ih =>
      rw [spares_group hinner.wellFormed hmode] at hspares
      rw [spares_group hinner.wellFormed_written hmode']
      exact ih hspares rfl rfl
  | signed hsign hatom _ ih =>
      obtain rfl : mode = .opening := hmode
      obtain rfl : mode' = .opening := hmode'
      rw [Mode.spares_signed hsign hatom.ne_nil hatom.plain] at hspares ⊢
      exact ⟨hspares.1, ih hspares.2 rfl rfl⟩
  | unsigned hw _ ihw ih =>
      obtain rfl : mode = .opening := hmode
      obtain rfl : mode' = .opening := hmode'
      rw [spares_operand_append .opening hw.wellFormed nofun] at hspares
      rw [spares_operand_append .opening hw.wellFormed_written nofun]
      exact ⟨ihw hspares.1 nofun nofun, ih hspares.2 rfl rfl⟩
  | nothing =>
      trivial
  | @operator op _ _ _ _ _ _ hw _ ihw ih =>
      obtain rfl : mode = .operand := hmode
      obtain rfl : mode' = .operand := hmode'
      rw [List.cons_append, Mode.spares_operator,
        spares_operand_append .operator hw.wellFormed nofun] at hspares
      rw [List.cons_append, Mode.spares_operator,
        spares_operand_append .operator hw.wellFormed_written nofun]
      exact ⟨ihw hspares.1 nofun nofun, ih hspares.2 rfl rfl⟩
  | product _ hw _ ihw ih =>
      obtain rfl : mode = .operand := hmode
      obtain rfl : mode' = .operand := hmode'
      have hstar (text : List Char) :
          Mode.operand.Spares letter ('*' :: text) ↔ Mode.operator.Spares letter text :=
        Mode.spares_operator .mul
      rw [spares_operand_append .operand hw.wellFormed nofun] at hspares
      rw [List.cons_append, hstar,
        spares_operand_append .operator hw.wellFormed_written nofun]
      exact ⟨ihw hspares.1 nofun nofun, ih hspares.2 rfl rfl⟩

/-- An atom becomes an operand of the same sort. -/
theorem starred_substitute_atom
    {numeral : Bool} {w : List Char}
    (hletter : letter.isAlpha)
    (hreplacement : Starred table .group replacement out)
    (hatom : Atom table numeral w) :
    Starred table (.operand numeral) (substitute letter replacement w)
      (substitute letter out w) := by
  cases hatom with
  | numeral hn =>
      rw [substitute_numeral hletter hn, substitute_numeral hletter hn]
      exact .atom (.numeral hn)
  | @letter c hc =>
      by_cases heq : c = letter
      · subst heq
        rw [substitute_self, substitute_self]
        exact .bracketed hreplacement
      · rw [substitute_cons_of_ne heq, substitute_cons_of_ne heq]
        exact .atom (.letter hc)

/-- A spared letter is not the atom behind a sign. -/
theorem substitute_atom_of_spares
    {numeral : Bool} {w : List Char}
    (hletter : letter.isAlpha)
    (hatom : Atom table numeral w)
    (hspares : Mode.sign.Spares letter w) :
    substitute letter replacement w = w := by
  cases hatom with
  | numeral hn =>
      exact substitute_numeral hletter hn
  | letter _ =>
      exact substitute_cons_of_ne (hspares.1 rfl)

/-- **Every part of an equation stays such a part, with its products at the same places.** -/
theorem starred_substitute
    {part : Part} {w written : List Char} {mode : Mode}
    (hletter : letter.isAlpha)
    (hreplacement : Starred table .group replacement out)
    (h : Starred table part w written)
    (hspares : mode.Spares letter w)
    (hmode : part.StartsIn mode) :
    Starred table part (substitute letter replacement w) (substitute letter out written) := by
  induction h generalizing mode with
  | atom hatom =>
      exact starred_substitute_atom hletter hreplacement hatom
  | bracketed hinner ih =>
      rw [spares_group hinner.wellFormed hmode] at hspares
      rw [substitute_bracketed hletter, substitute_bracketed hletter]
      exact .bracketed (ih hspares rfl)
  | signed hsign hatom _ ih =>
      obtain rfl : mode = .opening := hmode
      rw [Mode.spares_signed hsign hatom.ne_nil hatom.plain] at hspares
      simp only [List.cons_append, substitute_sign hletter hsign, substitute_append,
        substitute_atom_of_spares hletter hatom hspares.1]
      exact .signed hsign hatom (ih hspares.2 rfl)
  | unsigned hw _ ihw ih =>
      obtain rfl : mode = .opening := hmode
      rw [spares_operand_append .opening hw.wellFormed nofun] at hspares
      rw [substitute_append, substitute_append]
      exact .unsigned (ihw hspares.1 nofun) (ih hspares.2 rfl)
  | nothing =>
      exact .nothing
  | operator hw _ ihw ih =>
      obtain rfl : mode = .operand := hmode
      rw [List.cons_append, Mode.spares_operator,
        spares_operand_append .operator hw.wellFormed nofun] at hspares
      simp only [List.cons_append, substitute_operator hletter, substitute_append]
      exact .operator (ihw hspares.1 nofun) (ih hspares.2 rfl)
  | product hnot hw _ ihw ih =>
      obtain rfl : mode = .operand := hmode
      rw [spares_operand_append .operand hw.wellFormed nofun] at hspares
      have hstar (text : List Char) :
          substitute letter out ('*' :: text) = '*' :: substitute letter out text :=
        substitute_operator hletter .mul text
      simp only [List.cons_append, hstar, substitute_append]
      exact .product hnot (ihw hspares.1 nofun) (ih hspares.2 rfl)

end Derivations

section Phrases

variable {table : VarTable} {letter : Char} {out : List Char} {b : Expr}
variable {level : Option Level} {signed : Bool} {w : List Char} {e : Expr} {mode : Mode}

/-- Every phrase ends with an operand. -/
theorem Phrase.eq_operand_of_along
    {last : Mode}
    (h : Phrase table level signed w e)
    (halong : mode.along w = some last) :
    last = .operand := by
  have hsigned {sign : Char} {n : List Char} {start : Mode}
      (hn : n ≠ [] ∧ ∀ c ∈ n, Token.symbol? c = none)
      (halong : start.along (sign :: n) = some last) : last = .operand := by
    rw [Mode.along_cons, Option.bind_eq_some_iff] at halong
    obtain ⟨next, -, halong⟩ := halong
    rw [next.along_of_plain hn.1 hn.2] at halong
    exact (Option.some.inj halong).symm
  induction h generalizing mode with
  | numeral hn _ =>
      rw [mode.along_of_plain hn.ne_nil hn.plain] at halong
      exact (Option.some.inj halong).symm
  | signedNumeral _ hn _ =>
      exact hsigned ⟨hn.ne_nil, hn.plain⟩ halong
  | letter hslot =>
      rw [mode.along_of_plain (by simp) (plain_of_slotOf? hslot)] at halong
      exact (Option.some.inj halong).symm
  | plusLetter hslot | minusLetter hslot =>
      exact hsigned ⟨by simp, plain_of_slotOf? hslot⟩ halong
  | bracketed _ _ =>
      rw [Mode.along_append, Option.bind_eq_some_iff] at halong
      obtain ⟨middle, -, hclosing⟩ := halong
      cases middle <;> cases hclosing
      rfl
  | operand _ ih =>
      exact ih halong
  | chain _ _ _ ihv =>
      rw [Mode.along_append, Option.bind_eq_some_iff] at halong
      obtain ⟨middle, -, halong⟩ := halong
      rw [Mode.along_cons, Option.bind_eq_some_iff] at halong
      obtain ⟨next, -, halong⟩ := halong
      exact ihv halong

/-- Where a phrase may start, a sign is merged with what follows it. -/
theorem ne_of_spares_signed
    {sign c : Char} {last : Mode}
    (hsign : Token.isSign sign)
    (halong : mode.along [sign, c] = some last)
    (hspares : mode.Spares letter [sign, c])
    (hmode : mode ≠ .operand) :
    c ≠ letter := by
  rw [Mode.along_cons, Option.bind_eq_some_iff] at halong
  obtain ⟨next, hfollow, -⟩ := halong
  rcases Mode.follow_sign hsign hfollow with ⟨-, rfl⟩ | ⟨rfl, -⟩
  · exact (hspares.2 _ hfollow).1 rfl
  · exact absurd rfl hmode

/-- **Every phrase stays a phrase of its level, with the variable replaced in its expression.** -/
theorem Phrase.substitute
    {last : Mode}
    (h : Phrase table level signed w e)
    (hletter : letter.isAlpha)
    (hreplacement : Phrase table (some .sum) true out b)
    (halong : mode.along w = some last)
    (hspares : mode.Spares letter w)
    (hmode : mode ≠ .operand) :
    Phrase table level signed (substitute letter out w) (e.replaceVar letter b) := by
  have hopening : Mode.opening ≠ .operand := by
    intro heq
    cases heq
  have hoperator : Mode.operator ≠ .operand := by
    intro heq
    cases heq
  induction h generalizing mode last with
  | numeral hn hv =>
      rw [substitute_numeral hletter hn]
      exact .numeral hn hv
  | signedNumeral hsign hn hv =>
      rw [substitute_sign hletter hsign, substitute_numeral hletter hn]
      exact .signedNumeral hsign hn hv
  | @letter _ c slot hslot =>
      by_cases heq : c = letter
      · rw [Expr.replaceVar, if_pos heq, heq, substitute_self]
        exact .bracketed hreplacement
      · rw [Expr.replaceVar, if_neg heq, substitute_cons_of_ne heq]
        exact .letter hslot
  | @plusLetter c slot hslot =>
      have hne := ne_of_spares_signed rfl halong hspares hmode
      rw [Expr.replaceVar, if_neg hne, substitute_sign hletter rfl, substitute_cons_of_ne hne]
      exact .plusLetter hslot
  | @minusLetter c slot hslot =>
      have hne := ne_of_spares_signed rfl halong hspares hmode
      have hvar : (Expr.var slot c).replaceVar letter b = .var slot c := by
        rw [Expr.replaceVar, if_neg hne]
      rw [Expr.negation, Expr.replaceVar, hvar, substitute_sign hletter rfl,
        substitute_cons_of_ne hne]
      exact .minusLetter hslot
  | bracketed _ ih =>
      rw [List.cons_append, Mode.along_cons, Option.bind_eq_some_iff] at halong
      obtain ⟨next, hfollow, halong⟩ := halong
      obtain rfl := Mode.follow_opening hfollow
      rw [Mode.along_append, Option.bind_eq_some_iff] at halong
      obtain ⟨middle, hinner, -⟩ := halong
      have hspares' := Mode.spares_append.1 (hspares.2 _ hfollow)
      rw [substitute_bracketed hletter]
      exact .bracketed (ih hinner hspares'.1 hopening)
  | operand _ ih =>
      exact .operand (ih halong hspares hmode)
  | @chain op _ u v _ _ hu _ ihu ihv =>
      rw [Mode.along_append, Option.bind_eq_some_iff] at halong
      obtain ⟨middle, halongu, halong⟩ := halong
      obtain rfl := hu.eq_operand_of_along halongu
      rw [Mode.along_operator] at halong
      rw [Mode.spares_append_of_along halongu, Mode.spares_operator] at hspares
      rw [substitute_append, substitute_operator hletter]
      exact .chain (ihu halongu hspares.1 hmode) (ihv halong hspares.2 hoperator)

end Phrases

namespace Equation

/--
A valid text stays valid when every occurrence of a letter of the table, none of which is merged
with a sign, is replaced by a valid text between brackets; its expression is then the old one with
the expression of that text in place of the variable.
-/
theorem parse_substitute
    (table : VarTable) (letter : Char) (text replacement : List Char) (e b : Expr)
    (hletter : table.contains letter)
    (htext : parse? table text = some e)
    (hreplacement : parse? table replacement = some b)
    (hunmerged : ∀ sign, Token.isSign sign →
      ¬ [sign, letter] <+: text ∧ ¬ ['(', sign, letter] <:+: text) :
    parse? table (substitute letter replacement text) = some (e.replaceVar letter b) := by
  have halpha := VarTable.isAlpha_of_contains hletter
  obtain ⟨written, hwritten, he⟩ := parse?_eq_some_iff.1 htext
  obtain ⟨out, hout, hb⟩ := parse?_eq_some_iff.1 hreplacement
  have hspares := Mode.spares_of_no_merged_sign hunmerged
  have halong : Mode.opening.along written = some .operand :=
    along_of_wellFormed hwritten.wellFormed_written rfl
  have hphrase : Phrase table (some .sum) true (substitute letter out written)
      (e.replaceVar letter b) :=
    he.substitute halpha hb halong (spares_written hwritten hspares rfl rfl) nofun
  exact parse?_eq_some_iff.2 ⟨_, starred_substitute halpha hout hwritten hspares rfl, hphrase⟩

/-- A letter beside a number, below a power and in front of a group. -/
theorem parse_substitute_product :
    VarTable.initial.contains 'x' ∧
      parse? .initial "2x^x(-z)".toList =
        some (.binary .mul (.number (.ofBits 0x4000000000000000))
          (.binary .mul (.binary .pow (.var 0 'x') (.var 0 'x')) (Expr.negation (.var 2 'z')))) ∧
      parse? .initial "-y/x".toList =
        some (.binary .div (Expr.negation (.var 1 'y')) (.var 0 'x')) ∧
      parse? .initial "2(-y/x)^(-y/x)(-z)".toList =
        some (.binary .mul (.number (.ofBits 0x4000000000000000))
          (.binary .mul
            (.binary .pow
              (.binary .div (Expr.negation (.var 1 'y')) (.var 0 'x'))
              (.binary .div (Expr.negation (.var 1 'y')) (.var 0 'x')))
            (Expr.negation (.var 2 'z')))) := by
  have hletter : VarTable.initial.contains 'x' := by
    decide
  have htext : parse? .initial "2x^x(-z)".toList =
      some (.binary .mul (.number (.ofBits 0x4000000000000000))
        (.binary .mul (.binary .pow (.var 0 'x') (.var 0 'x')) (Expr.negation (.var 2 'z')))) := by
    decide +kernel
  have hreplacement : parse? .initial "-y/x".toList =
      some (.binary .div (Expr.negation (.var 1 'y')) (.var 0 'x')) := by
    decide +kernel
  have hunmerged : ∀ sign, Token.isSign sign →
      ¬ [sign, 'x'] <+: "2x^x(-z)".toList ∧ ¬ ['(', sign, 'x'] <:+: "2x^x(-z)".toList := by
    intro sign hsign
    rcases isSign_iff.1 hsign with rfl | rfl <;> decide +kernel
  exact ⟨hletter, htext, hreplacement,
    parse_substitute .initial 'x' _ _ _ _ hletter htext hreplacement hunmerged⟩

end Equation

end FormulaCalc
