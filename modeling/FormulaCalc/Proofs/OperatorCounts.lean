import FormulaCalc.Proofs.TopLevel
/-!
# Counting operators

How many operators an expression has can be seen from any text it is read from, and brackets do not
matter for it: a symbol is an operator if it stands behind an operand, and otherwise it is a sign,
which counts only as a minus in front of a letter (`Phrase.hasOperators`).

So a text has at most one place at which it can be cut into an operand with a given number of
operators, an operator, and the rest.  From this follows where a phrase is cut if it is known which
operators its expression has (`Phrase.cut`), without asking in which order the operators of the text
come.
-/

namespace FormulaCalc

namespace Expr

/-- The number of operators in an expression. -/
def operatorCount : Expr → Nat
  | number _ | var _ _ => 0
  | binary _ left right => left.operatorCount + 1 + right.operatorCount

/-- Whether two expressions have the same operators, whatever their numbers and variables are. -/
def sameOperators : Expr → Expr → Bool
  | binary op left right, binary op' left' right' =>
    op = op' && left.sameOperators left' && right.sameOperators right'
  | binary _ _ _, _ | _, binary _ _ _ => false
  | _, _ => true

section Same

variable {e e' : Expr}

theorem sameOperators_binary_iff
    {op : Operator} {left right : Expr} :
    e.sameOperators (binary op left right) ↔
      ∃ a b, e = binary op a b ∧ a.sameOperators left ∧ b.sameOperators right := by
  cases e with
  | number | var =>
      simp [sameOperators]
  | binary other a b =>
      simp only [sameOperators, Bool.and_eq_true, decide_eq_true_eq, binary.injEq]
      grind

theorem sameOperators_self
    (e : Expr) :
    e.sameOperators e := by
  induction e with
  | number | var =>
      rfl
  | binary op left right ihl ihr =>
      exact sameOperators_binary_iff.2 ⟨left, right, rfl, ihl, ihr⟩

theorem sameOperators_of_numericEq
    (h : e.numericEq e') :
    e.sameOperators e' := by
  induction e' generalizing e with
  | number | var =>
      cases e with
      | number | var =>
          rfl
      | binary =>
          cases h
  | binary op left right ihl ihr =>
      cases e with
      | number | var =>
          cases h
      | binary other a b =>
          simp only [numericEq, Bool.and_eq_true, decide_eq_true_eq] at h
          obtain ⟨⟨rfl, hl⟩, hr⟩ := h
          exact sameOperators_binary_iff.2 ⟨a, b, rfl, ihl hl, ihr hr⟩

theorem operatorCount_of_same
    (h : e.sameOperators e') :
    e.operatorCount = e'.operatorCount := by
  induction e' generalizing e with
  | number | var =>
      cases e with
      | number | var =>
          rfl
      | binary =>
          cases h
  | binary op left right ihl ihr =>
      obtain ⟨a, b, rfl, ha, hb⟩ := sameOperators_binary_iff.1 h
      rw [operatorCount, operatorCount, ihl ha, ihr hb]

end Same

end Expr

section Counting

/-- A text without its brackets. -/
def withoutBrackets (text : List Char) : List Char :=
  text.filter fun c => c ≠ '(' && c ≠ ')'

/--
The number of operators of a text without brackets.  A symbol behind an operand is one; any other is
a sign, and is read as an operator only if it is a minus in front of a letter.
-/
def countOperators (afterOperand : Bool) : List Char → Nat
  | [] => 0
  | c :: rest =>
    if (Operator.ofSymbol? c).isSome then
      (if afterOperand || (c = '-' && rest.head?.any Char.isAlpha) then 1 else 0)
        + countOperators false rest
    else countOperators true rest

/-- Whether a balanced text has so many operators and ends with an operand, whatever follows it. -/
structure HasOperators (text : List Char) (count : Nat) : Prop where
  balanced : Balanced text
  count_eq : ∀ rest,
    countOperators false (withoutBrackets text ++ rest) = count + countOperators true rest

variable {u v w : List Char} {c : Char} {afterOperand : Bool}

theorem withoutBrackets_append
    (u v : List Char) :
    withoutBrackets (u ++ v) = withoutBrackets u ++ withoutBrackets v := by
  exact List.filter_append _ _

theorem withoutBrackets_bracketed
    (w : List Char) :
    withoutBrackets ('(' :: w ++ [')']) = withoutBrackets w := by
  rw [List.cons_append]
  simp [withoutBrackets]

theorem withoutBrackets_cons
    (w : List Char)
    (hopen : c ≠ '(')
    (hclose : c ≠ ')') :
    withoutBrackets (c :: w) = c :: withoutBrackets w := by
  simp [withoutBrackets, hopen, hclose]

theorem withoutBrackets_of_plain
    (h : ∀ c ∈ w, Token.symbol? c = none) :
    withoutBrackets w = w := by
  refine List.filter_eq_self.2 fun c hc => ?_
  obtain ⟨hopen, hclose⟩ := ne_brackets_of_symbol?_eq_none (h c hc)
  simp [hopen, hclose]

theorem countOperators_operator
    (op : Operator) (rest : List Char) :
    countOperators true (op.symbol :: rest) = 1 + countOperators false rest := by
  simp [countOperators]

/-- Behind a word without symbols an operand is over. -/
theorem countOperators_word
    (h : ∀ c ∈ w, Token.symbol? c = none)
    (hne : w ≠ [])
    (rest : List Char) :
    countOperators afterOperand (w ++ rest) = countOperators true rest := by
  induction w generalizing afterOperand with
  | nil =>
      exact absurd rfl hne
  | cons c w ih =>
      have hplain := ofSymbol?_eq_none_of_symbol?_eq_none (h c List.mem_cons_self)
      rw [List.cons_append, countOperators, hplain]
      by_cases hw : w = []
      · rw [hw]
        rfl
      · exact ih (fun d hd => h d (List.mem_cons_of_mem c hd)) hw

theorem hasOperators_word
    (h : ∀ c ∈ w, Token.symbol? c = none)
    (hne : w ≠ []) :
    HasOperators w 0 where
  balanced := .of_plain fun c hc => ne_brackets_of_symbol?_eq_none (h c hc)
  count_eq rest := by
    rw [withoutBrackets_of_plain h, countOperators_word h hne, Nat.zero_add]

/-- A sign in front of a word counts only if it is a minus in front of a letter. -/
theorem hasOperators_signed_word
    {sign : Char}
    (hsign : Token.isSign sign)
    (h : ∀ c ∈ w, Token.symbol? c = none)
    (hne : w ≠ []) :
    HasOperators (sign :: w) (if sign = '-' && w.head?.any Char.isAlpha then 1 else 0) where
  balanced := by
    have hw : Balanced w := .of_plain fun c hc => ne_brackets_of_symbol?_eq_none (h c hc)
    rcases isSign_iff.1 hsign with rfl | rfl <;> exact .plain (by decide) (by decide) hw
  count_eq rest := by
    obtain ⟨op, hop, -⟩ := ofSymbol?_of_isSign hsign
    obtain ⟨hopen, hclose⟩ : sign ≠ '(' ∧ sign ≠ ')' := by
      rcases isSign_iff.1 hsign with rfl | rfl <;> decide
    have hhead : (w ++ rest).head? = w.head? := by
      obtain ⟨c, w, rfl⟩ := List.exists_cons_of_ne_nil hne
      rfl
    rw [withoutBrackets_cons w hopen hclose, withoutBrackets_of_plain h, List.cons_append,
      countOperators, hop, Option.isSome_some, if_pos rfl, hhead, countOperators_word h hne,
      Bool.false_or]

theorem HasOperators.bracketed
    {n : Nat}
    (h : HasOperators w n) :
    HasOperators ('(' :: w ++ [')']) n where
  balanced := h.balanced.bracketed
  count_eq := by
    rw [withoutBrackets_bracketed]
    exact h.count_eq

theorem HasOperators.chain
    {m n : Nat}
    (hu : HasOperators u m)
    (op : Operator)
    (hv : HasOperators v n) :
    HasOperators (u ++ op.symbol :: v) (m + 1 + n) where
  balanced := by
    obtain ⟨hopen, hclose⟩ := symbol_ne_brackets op
    exact hu.balanced.append (.plain hopen hclose hv.balanced)
  count_eq rest := by
    obtain ⟨hopen, hclose⟩ := symbol_ne_brackets op
    rw [withoutBrackets_append, withoutBrackets_cons v hopen hclose, List.append_assoc,
      hu.count_eq, List.cons_append, countOperators_operator, hv.count_eq]
    omega

theorem HasOperators.ne_nil
    {n : Nat}
    (h : HasOperators w n) :
    w ≠ [] := by
  rintro rfl
  have hcount := h.count_eq ['*']
  simp [withoutBrackets, countOperators, Operator.ofSymbol?] at hcount

/-- Texts that are the same without their brackets have the same operators. -/
theorem HasOperators.congr
    {n : Nat}
    (h : HasOperators u n)
    (hv : Balanced v)
    (heq : withoutBrackets v = withoutBrackets u) :
    HasOperators v n where
  balanced := hv
  count_eq := by
    rw [heq]
    exact h.count_eq

theorem HasOperators.not_append
    {n : Nat} {op : Operator}
    (h : HasOperators u n) :
    ¬ HasOperators (u ++ op.symbol :: v) n := by
  intro hlonger
  obtain ⟨hopen, hclose⟩ := symbol_ne_brackets op
  have hcount := hlonger.count_eq []
  rw [withoutBrackets_append, withoutBrackets_cons v hopen hclose, List.append_assoc, h.count_eq,
    List.cons_append, countOperators_operator, countOperators] at hcount
  omega

/-- A text can be cut only at one place so that the first part has a given number of operators. -/
theorem HasOperators.eq_of_append_eq
    {n : Nat} {op op' : Operator} {u' v' : List Char}
    (hu : HasOperators u n)
    (hu' : HasOperators u' n)
    (h : u ++ op.symbol :: v = u' ++ op'.symbol :: v') :
    u = u' := by
  rcases List.append_eq_append_iff.1 h with ⟨z, rfl, hz⟩ | ⟨z, rfl, hz⟩ <;> cases z with
  | nil =>
      simp
  | cons c z =>
      obtain ⟨rfl, -⟩ := List.cons.inj hz
      first | exact absurd hu' hu.not_append | exact absurd hu hu'.not_append

end Counting

section Cutting

open BracketedText

variable {table : VarTable} {level : Option Level} {signed : Bool} {u v w : List Char} {t : Expr}

/-- **The operators of an expression can be counted in its text.** -/
theorem Phrase.hasOperators
    (h : Phrase table level signed w t) :
    HasOperators w t.operatorCount := by
  induction h with
  | numeral hn _ =>
      exact hasOperators_word hn.plain hn.ne_nil
  | @signedNumeral sign n _ hsign hn _ =>
      have hhead : n.head?.any Char.isAlpha = false := by
        rw [Option.any_eq_false]
        intro c hc
        rw [Bool.eq_false_iff]
        intro halpha
        have hchar := hn.chars c (List.mem_of_mem_head? hc)
        rw [isNumeralChar_eq_false_of_isAlpha halpha] at hchar
        cases hchar
      have hcount := hasOperators_signed_word hsign hn.plain hn.ne_nil
      rw [hhead, Bool.and_false] at hcount
      exact hcount
  | letter hslot =>
      exact hasOperators_word (plain_of_slotOf? hslot) (List.cons_ne_nil _ _)
  | @plusLetter c _ hslot =>
      exact hasOperators_signed_word rfl (plain_of_slotOf? hslot) (List.cons_ne_nil _ _)
  | @minusLetter c _ hslot =>
      have hminus : Token.isSign '-' := rfl
      have hcount := hasOperators_signed_word hminus (plain_of_slotOf? hslot)
        (List.cons_ne_nil _ _)
      rw [List.head?_cons, Option.any_some, isAlpha_of_slotOf? hslot] at hcount
      exact hcount
  | bracketed _ ih =>
      exact ih.bracketed
  | operand _ ih =>
      exact ih
  | @chain op _ _ _ _ _ _ _ ihu ihv =>
      exact ihu.chain op ihv

/-- A pair of brackets around a whole text is not what an operand in front of an operator is. -/
theorem bracketed_ne_chain
    {op : Operator}
    (hw : Balanced w)
    (hu : Balanced u)
    (hne : u ≠ []) :
    '(' :: w ++ [')'] ≠ u ++ op.symbol :: v := by
  intro h
  have hstands := standsAt_zero ('(' :: w ++ [')'])
  have hclosing := closing?_eq_some_iff_balanced.2 ⟨w, hw, rfl, hstands⟩
  have hstandsu : StandsAt ('(' :: w ++ [')']) 0 u := by
    rw [h]
    exact List.prefix_append u _
  have hlt := closing?_lt_of_balanced hu hstandsu (Nat.le_refl 0)
    (by simpa using List.length_pos_iff.2 hne) hclosing
  have hlength := congrArg List.length h
  rw [length_bracketed, length_chain] at hlength
  omega

/-- What stands between the brackets around a phrase is the phrase itself. -/
theorem Phrase.inside_brackets
    (h : Phrase table level signed ('(' :: w ++ [')']) t)
    (hw : Balanced w) :
    Phrase table (some .sum) true w t := by
  generalize htext : '(' :: w ++ [')'] = text at h
  induction h with
  | numeral hn _ =>
      have hplain := hn.plain '(' (by rw [← htext]; exact List.mem_cons_self)
      cases hplain
  | signedNumeral hsign _ _ =>
      obtain ⟨rfl, -⟩ := List.cons.inj htext
      cases hsign
  | letter =>
      have hlength := congrArg List.length htext
      rw [length_bracketed, List.length_singleton] at hlength
      omega
  | plusLetter | minusLetter =>
      cases (List.cons.inj htext).1
  | bracketed hinner _ =>
      obtain ⟨-, hrest⟩ := List.cons.inj htext
      rw [List.append_cancel_right hrest]
      exact hinner
  | operand _ ih =>
      exact ih htext
  | chain hu _ _ _ =>
      exact absurd htext (bracketed_ne_chain hw hu.balanced hu.ne_nil)

/--
**A phrase is cut where the operators of its expression say.**  If the expression is that of an
operator whose left operand has as many operators as the text in front of it, then the two parts are
its operands, and the phrase is no tighter than the operator.
-/
theorem Phrase.cut
    {op : Operator} {left right : Expr}
    (h : Phrase table level signed (u ++ op.symbol :: v) t)
    (hu : HasOperators u left.operatorCount)
    (hsame : t.sameOperators (.binary op left right)) :
    ∃ a b,
      a.sameOperators left ∧ b.sameOperators right ∧
      Phrase table op.level.operand true u a ∧
      Phrase table (some op.level) true v b ∧
      tightness level ≤ op.level.rank := by
  obtain ⟨a, b, rfl, ha, hb⟩ := Expr.sameOperators_binary_iff.1 hsame
  rw [← Expr.operatorCount_of_same ha] at hu
  generalize htext : u ++ op.symbol :: v = text at h
  generalize ht : Expr.binary op a b = t at h
  induction h with
  | numeral | signedNumeral | letter | plusLetter =>
      cases ht
  | @minusLetter c _ hslot =>
      -- the operator would have to be the sign or the letter
      obtain ⟨d, rest, rfl⟩ := List.exists_cons_of_ne_nil hu.ne_nil
      obtain ⟨-, hrest⟩ := List.cons.inj htext
      have hletter : op.symbol ∈ [c] := by
        rw [← hrest]
        exact List.mem_append_right rest List.mem_cons_self
      have hnone := ofSymbol?_eq_none_of_symbol?_eq_none (plain_of_slotOf? hslot _ hletter)
      rw [Operator.ofSymbol?_symbol] at hnone
      cases hnone
  | bracketed hinner _ =>
      exact absurd htext.symm (bracketed_ne_chain hinner.balanced hu.balanced hu.ne_nil)
  | operand _ ih =>
      obtain ⟨a, b, ha, hb, hleft, hright, hle⟩ := ih htext ht
      exact ⟨a, b, ha, hb, hleft, hright, Nat.le_of_lt (rank_lt_of_tightness_operand_le hle)⟩
  | chain hleft hright _ _ =>
      obtain ⟨rfl, rfl, rfl⟩ := Expr.binary.inj ht
      obtain rfl := hu.eq_of_append_eq hleft.hasOperators htext
      obtain ⟨-, rfl⟩ := List.cons.inj (List.append_cancel_left htext)
      exact ⟨a, b, ha, hb, hleft.allowSign, hright.allowSign, Nat.le_refl _⟩

end Cutting

end FormulaCalc
