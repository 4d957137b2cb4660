import FormulaCalc.Expr.Build
import FormulaCalc.Proofs.TopLevel
/-!
# Building follows the grammar

The builder never reads a text by the rules of `Phrase`: it takes brackets off, looks for the
principal operator of a slice, and cuts there.  This module proves that it accepts exactly the sums
of the grammar nevertheless, and gives each the expression of its derivation
(`build_iff_sum`).

`buildSlice_of_phrase` goes by induction on the derivation, with the phrase standing anywhere in
the text.  `phrase_of_buildSlice` goes by induction on the length of the slice; what has to be known
of a slice is the loosest operator at its top level and whether it starts with a sign.
-/

namespace FormulaCalc

open BracketedText

namespace Expr

/-- Whether a text is one letter, perhaps behind a sign. -/
def SpellsLetter (c : Char) (text : List Char) : Prop :=
  text = [c] ∨ ∃ sign, Token.isSign sign ∧ text = [sign, c]

section Leaves

variable {table : VarTable} {text : List Char}

theorem splitSign_of_head
    (h : ∀ c ∈ text.head?, Token.isSign c = false) :
    splitSign text = (false, text) := by
  unfold splitSign
  split
  · cases h '-' rfl
  · cases h '+' rfl
  · rfl

theorem splitSign_of_sign
    {sign : Char} {body : List Char}
    (h : Token.isSign sign) :
    splitSign (sign :: body) = (decide (sign = '-'), body) := by
  rcases isSign_iff.1 h with rfl | rfl <;> rfl

theorem leaf_eq_numeralLeaf
    {negative : Bool} {body : List Char}
    (hsplit : splitSign text = (negative, body))
    (hbody : IsNumeral body) :
    leaf table text = numeralLeaf text body := by
  rw [leaf, hsplit]
  split
  · next negative c heq =>
      obtain ⟨-, rfl⟩ := Prod.mk.inj heq
      have hchar := hbody.chars c List.mem_cons_self
      rw [if_neg]
      intro halpha
      rw [isNumeralChar_eq_false_of_isAlpha halpha] at hchar
      cases hchar
  · next heq =>
      obtain ⟨-, rfl⟩ := Prod.mk.inj heq
      rfl

theorem leaf_letter
    {negative : Bool} {c : Char} {slot : Nat}
    (hsplit : splitSign text = (negative, [c]))
    (hslot : table.slotOf? c = some slot) :
    leaf table text = .ok (if negative then negation (.var slot c) else .var slot c) := by
  rw [leaf, hsplit]
  simp only [isAlpha_of_slotOf? hslot, hslot, if_true]

/-- What can be read is a numeral without its sign. -/
theorem isNumeral_of_splitSign
    {negative : Bool} {body : List Char} {v : Binary64}
    (hsplit : splitSign text = (negative, body))
    (hv : Binary64.read? text = some v) :
    IsNumeral body := by
  rcases isNumeral_of_read? hv with hn | ⟨sign, n, rfl, hsign, hn⟩
  · rw [splitSign_of_head fun c hc => (head_not_symbol hn.plain c hc).2] at hsplit
    obtain ⟨-, rfl⟩ := Prod.mk.inj hsplit
    exact hn
  · rw [splitSign_of_sign hsign] at hsplit
    obtain ⟨-, rfl⟩ := Prod.mk.inj hsplit
    exact hn

/-- The test of the characters refuses nothing that the reader would accept. -/
theorem numeralLeaf_eq
    {negative : Bool} {body : List Char}
    (hsplit : splitSign text = (negative, body)) :
    numeralLeaf text body =
      match Binary64.read? text with
      | some v => .ok (.number v)
      | none => .error (.invalidLeaf text) := by
  rw [numeralLeaf]
  split
  · next hrefused =>
      cases hv : Binary64.read? text with
      | none =>
          rfl
      | some v =>
          have hbody := isNumeral_of_splitSign hsplit hv
          have hall : body.all Token.isNumeralChar = true := List.all_eq_true.2 hbody.chars
          simp [hbody.ne_nil, hall] at hrefused
  · rfl

theorem numeralLeaf_eq_ok_iff
    {negative : Bool} {body : List Char} {e : Expr}
    (hsplit : splitSign text = (negative, body)) :
    numeralLeaf text body = .ok e ↔ ∃ v, Binary64.read? text = some v ∧ e = .number v := by
  rw [numeralLeaf_eq hsplit]
  cases Binary64.read? text with
  | none =>
      simp
  | some v =>
      simp [eq_comm]

theorem splitSign_eq_letter_iff
    {negative : Bool} {c : Char}
    (hc : c.isAlpha) :
    splitSign text = (negative, [c]) ↔
      SpellsLetter c text ∧ negative = decide (text.head? = some '-') := by
  have hletter := isSign_eq_false_of_symbol?_eq_none (symbol?_eq_none_of_isAlpha hc)
  constructor
  · intro hsplit
    by_cases hhead : ∀ d ∈ text.head?, Token.isSign d = false
    · rw [splitSign_of_head hhead] at hsplit
      obtain ⟨rfl, rfl⟩ := Prod.mk.inj hsplit
      refine ⟨.inl rfl, (decide_eq_false ?_).symm⟩
      intro hminus
      cases hhead '-' hminus
    · cases text with
      | nil =>
          cases hsplit
      | cons sign body =>
          have hsign : Token.isSign sign := by
            simpa using hhead
          rw [splitSign_of_sign hsign] at hsplit
          obtain ⟨rfl, rfl⟩ := Prod.mk.inj hsplit
          exact ⟨.inr ⟨sign, hsign, rfl⟩, by simp⟩
  · rintro ⟨rfl | ⟨sign, hsign, rfl⟩, rfl⟩
    · rw [splitSign_of_head]
      · have hminus : c ≠ '-' := by
          rintro rfl
          cases hletter
        simp [hminus]
      · intro d hd
        obtain rfl := Option.some.inj hd
        exact hletter
    · rw [splitSign_of_sign hsign]
      simp

theorem leaf_cases
    (table : VarTable) (text : List Char) :
    (∃ negative c, c.isAlpha ∧ splitSign text = (negative, [c])) ∨
      ∃ negative body, splitSign text = (negative, body) ∧
        leaf table text = numeralLeaf text body := by
  rw [leaf]
  split
  · next negative c hsplit =>
      split
      · next hc =>
          exact .inl ⟨negative, c, hc, hsplit⟩
      · exact .inr ⟨negative, [c], hsplit, rfl⟩
  · next negative body _ hsplit =>
      exact .inr ⟨negative, body, hsplit, rfl⟩

theorem leaf_unknownLetter
    {c : Char}
    (hspells : SpellsLetter c text)
    (hc : c.isAlpha)
    (hslot : table.slotOf? c = none) :
    leaf table text = .error (.unknownLetter c) := by
  rw [leaf, (splitSign_eq_letter_iff hc).2 ⟨hspells, rfl⟩]
  simp only [hc, hslot, if_true]

theorem phrase_of_numeralLeaf
    {signed negative : Bool} {body : List Char} {e : Expr}
    (hsplit : splitSign text = (negative, body))
    (h : numeralLeaf text body = .ok e)
    (hsigned : signed = false → ∀ c ∈ text.head?, Token.isSign c = false) :
    Phrase table none signed text e := by
  obtain ⟨v, hv, rfl⟩ := (numeralLeaf_eq_ok_iff hsplit).1 h
  rcases isNumeral_of_read? hv with hn | ⟨sign, n, rfl, hsign, hn⟩
  · exact .numeral hn hv
  · cases signed with
    | true =>
        exact .signedNumeral hsign hn hv
    | false =>
        rw [hsigned rfl sign rfl] at hsign
        cases hsign

/-- A leaf is an atom, and the sign it carries is one that may stand there. -/
theorem phrase_of_leaf
    {signed : Bool} {e : Expr}
    (h : leaf table text = .ok e)
    (hsigned : signed = false → ∀ c ∈ text.head?, Token.isSign c = false) :
    Phrase table none signed text e := by
  rcases leaf_cases table text with
    ⟨negative, c, hc, hsplit⟩ | ⟨negative, body, hsplit, hleaf⟩
  · obtain ⟨hspells, rfl⟩ := (splitSign_eq_letter_iff hc).1 hsplit
    cases hslot : table.slotOf? c with
    | none =>
        rw [leaf_unknownLetter hspells hc hslot] at h
        cases h
    | some slot =>
        rw [leaf_letter hsplit hslot] at h
        obtain rfl := Except.ok.inj h
        rcases hspells with rfl | ⟨sign, hsign, rfl⟩
        · have hminus : c ≠ '-' := by
            rintro rfl
            cases hc
          simpa [hminus] using Phrase.letter hslot
        · cases signed with
          | false =>
              rw [hsigned rfl sign rfl] at hsign
              cases hsign
          | true =>
              rcases isSign_iff.1 hsign with rfl | rfl
              · exact .plusLetter hslot
              · exact .minusLetter hslot
  · rw [hleaf] at h
    exact phrase_of_numeralLeaf hsplit h hsigned

end Leaves

section Slices

variable {table : VarTable} {t : BracketedText}

/-- Building a slice from which no brackets can be taken off. -/
def buildBare (table : VarTable) (t : BracketedText) (start stop : Nat) : Except BuildError Expr :=
  if stop ≤ start then .error (.missingOperand start stop)
  else
    match t.principal? start stop with
    | none => leaf table (t.slice start stop)
    | some (op, position) => do
      let left ← buildSlice table t start position
      let right ← buildSlice table t (position + 1) stop
      return .binary op left right

theorem buildSlice_eq_buildBare
    (table : VarTable) (t : BracketedText) (start stop : Nat) :
    buildSlice table t start stop =
      buildBare table t (t.stripOuter start stop).1 (t.stripOuter start stop).2 := by
  rw [buildSlice, buildBare]
  split
  · rfl
  · split <;> next heq => simp only [heq]

theorem buildSlice_of_enclosed
    {start stop : Nat}
    (hlt : start + 1 < stop)
    (hclosing : t.closing? start = some (stop - 1)) :
    buildSlice table t start stop = buildSlice table t (start + 1) (stop - 1) := by
  rw [buildSlice_eq_buildBare, stripOuter_of_enclosed hlt hclosing, ← buildSlice_eq_buildBare]

theorem buildSlice_of_bare
    {start stop : Nat}
    (h : ¬ (start + 1 < stop ∧ t.closing? start = some (stop - 1))) :
    buildSlice table t start stop = buildBare table t start stop := by
  rw [buildSlice_eq_buildBare, stripOuter_of_bare h]

theorem buildBare_leaf
    {start stop : Nat}
    (hlt : start < stop)
    (hnone : t.topOperators start stop = []) :
    buildBare table t start stop = leaf table (t.slice start stop) := by
  rw [buildBare, if_neg (by omega), principal?_eq_none_iff.2 hnone]

theorem buildBare_split
    {start stop position : Nat} {op : Operator}
    (hlt : start < stop)
    (hprincipal : t.principal? start stop = some (op, position)) :
    buildBare table t start stop = do
      let left ← buildSlice table t start position
      let right ← buildSlice table t (position + 1) stop
      return .binary op left right := by
  rw [buildBare, if_neg (by omega), hprincipal]

end Slices

section Completeness

variable {table : VarTable} {text : List Char}

/-- Only a slice that starts with a bracket can be enclosed by one. -/
theorem buildSlice_of_head
    {i : Nat} {w : List Char}
    (hstands : StandsAt text i w)
    (hne : w ≠ [])
    (hhead : ∀ c ∈ w.head?, c ≠ '(') :
    buildSlice table (ofText text) i (i + w.length) =
      buildBare table (ofText text) i (i + w.length) := by
  refine buildSlice_of_bare fun ⟨_, hclosing⟩ => ?_
  obtain ⟨c, rest, rfl⟩ := List.exists_cons_of_ne_nil hne
  have hchar := (standsAt_cons_iff.1 hstands).1
  rw [(brackets_of_closing? hclosing).1] at hchar
  exact hhead c rfl (Option.some.inj hchar).symm

theorem buildSlice_leaf
    {i : Nat} {w : List Char} {e : Expr}
    (hstands : StandsAt text i w)
    (hne : w ≠ [])
    (hhead : ∀ c ∈ w.head?, c ≠ '(')
    (hnone : (ofText text).topOperators i (i + w.length) = [])
    (hleaf : leaf table w = .ok e) :
    buildSlice table (ofText text) i (i + w.length) = .ok e := by
  have hpos := List.length_pos_iff.2 hne
  rw [buildSlice_of_head hstands hne hhead, buildBare_leaf (by omega) hnone,
    slice_of_standsAt hstands, hleaf]

theorem buildSlice_word
    {i : Nat} {w : List Char} {e : Expr}
    (hstands : StandsAt text i w)
    (hplain : ∀ c ∈ w, Token.symbol? c = none)
    (hne : w ≠ [])
    (hleaf : leaf table w = .ok e) :
    buildSlice table (ofText text) i (i + w.length) = .ok e := by
  refine buildSlice_leaf hstands hne ?_ ?_ hleaf
  · intro c hc
    exact (head_not_symbol hplain c hc).1
  · rw [topOperators_word hstands hplain hne (Nat.le_refl _), operatorsFrom_of_le (Nat.le_refl _)]

theorem buildSlice_signed_word
    {i : Nat} {sign : Char} {w : List Char} {e : Expr}
    (hstands : StandsAt text i (sign :: w))
    (hsign : Token.isSign sign)
    (hplain : ∀ c ∈ w, Token.symbol? c = none)
    (hleaf : leaf table (sign :: w) = .ok e) :
    buildSlice table (ofText text) i (i + (sign :: w).length) = .ok e := by
  refine buildSlice_leaf hstands (by simp) ?_ ?_ hleaf
  · rintro c hc rfl
    obtain rfl := Option.some.inj hc
    cases hsign
  · rw [topOperators_signed_word hstands hsign hplain (Nat.le_refl _),
      operatorsFrom_of_le (Nat.le_refl _)]

/-- The brackets around a slice are taken off. -/
theorem buildSlice_bracketed
    {i : Nat} {w : List Char}
    (hbalanced : Balanced w)
    (hne : w ≠ [])
    (hstands : StandsAt text i ('(' :: w ++ [')'])) :
    buildSlice table (ofText text) i (i + ('(' :: w ++ [')']).length) =
      buildSlice table (ofText text) (i + 1) (i + 1 + w.length) := by
  have hpos := List.length_pos_iff.2 hne
  have hclosing := closing?_eq_some_iff_balanced.2 ⟨w, hbalanced, rfl, hstands⟩
  have hlength := length_bracketed w
  have hstop : i + ('(' :: w ++ [')']).length = i + 1 + w.length + 1 := by
    omega
  rw [hstop, buildSlice_of_enclosed (by omega) (by rwa [Nat.add_sub_cancel]), Nat.add_sub_cancel]

/-- A phrase is built to its expression, wherever it stands. -/
theorem buildSlice_of_phrase
    {level : Option Level} {signed : Bool} {w : List Char} {e : Expr} {i : Nat}
    (h : Phrase table level signed w e)
    (hstands : StandsAt text i w) :
    buildSlice table (ofText text) i (i + w.length) = .ok e := by
  induction h generalizing i with
  | numeral hn hv =>
      have hsplit := splitSign_of_head fun c hc => (head_not_symbol hn.plain c hc).2
      refine buildSlice_word hstands hn.plain hn.ne_nil ?_
      rw [leaf_eq_numeralLeaf hsplit hn]
      exact (numeralLeaf_eq_ok_iff hsplit).2 ⟨_, hv, rfl⟩
  | signedNumeral hsign hn hv =>
      refine buildSlice_signed_word hstands hsign hn.plain ?_
      rw [leaf_eq_numeralLeaf (splitSign_of_sign hsign) hn]
      exact (numeralLeaf_eq_ok_iff (splitSign_of_sign hsign)).2 ⟨_, hv, rfl⟩
  | letter hslot =>
      have hplain := plain_of_slotOf? hslot
      have hsplit := splitSign_of_head fun c hc => (head_not_symbol hplain c hc).2
      exact buildSlice_word hstands hplain (by simp) (leaf_letter hsplit hslot)
  | @plusLetter c _ hslot =>
      have hleaf := leaf_letter (splitSign_of_sign (rfl : Token.isSign '+')) hslot
      exact buildSlice_signed_word hstands rfl (plain_of_slotOf? hslot) hleaf
  | @minusLetter c _ hslot =>
      have hleaf := leaf_letter (splitSign_of_sign (rfl : Token.isSign '-')) hslot
      exact buildSlice_signed_word hstands rfl (plain_of_slotOf? hslot) hleaf
  | bracketed hw ih =>
      obtain ⟨-, hinner, -⟩ := standsAt_bracketed_iff.1 hstands
      rw [buildSlice_bracketed hw.balanced hw.ne_nil hstands]
      exact ih hinner
  | operand _ ih =>
      exact ih hstands
  | @chain op signed u v a b hu hv ihu ihv =>
      obtain ⟨hstandsu, -, hstandsv⟩ := standsAt_chain_iff.1 hstands
      have hprincipal := Phrase.principal?_chain hu hv hstands
      have hlength := length_chain u v op.symbol
      have hstop : i + (u ++ op.symbol :: v).length = i + u.length + 1 + v.length := by
        omega
      -- an opening bracket at the start has its partner before the operator
      have hbare : ¬ (i + 1 < i + (u ++ op.symbol :: v).length ∧
          (ofText text).closing? i = some (i + (u ++ op.symbol :: v).length - 1)) := by
        rintro ⟨-, hclosing⟩
        have hpos := List.length_pos_iff.2 hu.ne_nil
        have hlt := closing?_lt_of_balanced hu.balanced hstandsu (Nat.le_refl i) (by omega) hclosing
        omega
      rw [buildSlice_of_bare hbare, buildBare_split (by omega) hprincipal, hstop,
        ihu hstandsu, ihv hstandsv]
      rfl

end Completeness

section Soundness

variable {table : VarTable} {text : List Char}

theorem lt_of_buildSlice
    {t : BracketedText} {start stop : Nat} {e : Expr}
    (h : buildSlice table t start stop = .ok e) :
    start < stop := by
  rw [buildSlice_eq_buildBare, buildBare] at h
  have hbounds := t.stripOuter_bounds start stop
  split at h
  · cases h
  · omega

/-- The halves of a slice that is cut at an operator. -/
theorem exists_operands_of_split
    {t : BracketedText} {start stop position : Nat} {op : Operator} {e : Expr}
    (hlt : start < stop)
    (hprincipal : t.principal? start stop = some (op, position))
    (h : buildBare table t start stop = .ok e) :
    ∃ a b,
      buildSlice table t start position = .ok a ∧
      buildSlice table t (position + 1) stop = .ok b ∧
      e = .binary op a b := by
  rw [buildBare_split hlt hprincipal] at h
  cases hleft : buildSlice table t start position with
  | error error =>
      rw [hleft] at h
      cases h
  | ok a =>
      cases hright : buildSlice table t (position + 1) stop with
      | error error =>
          rw [hleft, hright] at h
          cases h
      | ok b =>
          rw [hleft, hright] at h
          exact ⟨a, b, rfl, rfl, (Except.ok.inj h).symm⟩

theorem error_of_split
    {t : BracketedText} {start stop position : Nat} {op : Operator} {error : BuildError}
    (hlt : start < stop)
    (hprincipal : t.principal? start stop = some (op, position))
    (h : buildBare table t start stop = .error error) :
    buildSlice table t start position = .error error ∨
      buildSlice table t (position + 1) stop = .error error := by
  rw [buildBare_split hlt hprincipal] at h
  cases hleft : buildSlice table t start position with
  | error other =>
      rw [hleft] at h
      exact .inl h
  | ok a =>
      cases hright : buildSlice table t (position + 1) stop with
      | error other =>
          rw [hleft, hright] at h
          exact .inr h
      | ok b =>
          rw [hleft, hright] at h
          cases h

/-- A word whose first bracket is closed by its last character is a bracketed one. -/
theorem exists_bracketed_of_closing?
    {i : Nat} {w : List Char}
    (hstands : StandsAt text i w)
    (henclosed : i + 1 < i + w.length ∧
      (ofText text).closing? i = some (i + w.length - 1)) :
    ∃ inner, w = '(' :: inner ++ [')'] := by
  obtain ⟨hlt, hclosing⟩ := henclosed
  obtain ⟨u, -, hlength, hinner⟩ := closing?_eq_some_iff_balanced.1 hclosing
  refine ⟨u, ?_⟩
  have hlength := length_bracketed u
  refine List.IsPrefix.eq_of_length (List.prefix_of_prefix_length_le hstands hinner ?_) ?_ <;>
  · omega

/-- What is built from a slice is derived from it by the grammar. -/
theorem phrase_of_buildSlice
    {level : Option Level} {signed : Bool} {w : List Char} {e : Expr} {i : Nat}
    (hstands : StandsAt text i w)
    (h : buildSlice table (ofText text) i (i + w.length) = .ok e)
    (hrank : ∀ x ∈ (ofText text).topOperators i (i + w.length),
      tightness level ≤ x.1.level.rank)
    (hsigned : signed = false → ∀ c ∈ w.head?, Token.isSign c = false) :
    Phrase table level signed w e := by
  have hlt := lt_of_buildSlice h
  by_cases henclosed : i + 1 < i + w.length ∧
      (ofText text).closing? i = some (i + w.length - 1)
  · obtain ⟨inner, rfl⟩ := exists_bracketed_of_closing? hstands henclosed
    obtain ⟨-, hinner, -⟩ := standsAt_bracketed_iff.1 hstands
    have hlength := length_bracketed inner
    have hstop : i + ('(' :: inner ++ [')']).length - 1 = i + 1 + inner.length := by
      omega
    rw [buildSlice_of_enclosed henclosed.1 henclosed.2, hstop] at h
    have hsum : Phrase table (some .sum) true inner e :=
      phrase_of_buildSlice hinner h (fun x _ => one_le_rank x.1.level) nofun
    exact (Phrase.bracketed hsum).loosen (tightness_le_four level)
  · rw [buildSlice_of_bare henclosed] at h
    cases hprincipal : (ofText text).principal? i (i + w.length) with
    | none =>
        rw [buildBare_leaf hlt (principal?_eq_none_iff.1 hprincipal),
          slice_of_standsAt hstands] at h
        exact (phrase_of_leaf h hsigned).loosen (tightness_le_four level)
    | some found =>
        obtain ⟨op, position⟩ := found
        obtain ⟨a, b, ha, hb, rfl⟩ := exists_operands_of_split hlt hprincipal h
        obtain ⟨u, v, rfl, rfl, hbefore, hafter⟩ := exists_split_of_principal? hstands hprincipal
        obtain ⟨hstandsu, -, hstandsv⟩ := standsAt_chain_iff.1 hstands
        have hlength := length_chain u v op.symbol
        have hstop : i + (u ++ op.symbol :: v).length = i + u.length + 1 + v.length := by
          omega
        have hltu := lt_of_buildSlice ha
        have hltv := lt_of_buildSlice hb
        rw [hstop] at hb hafter hltv
        have hu : Phrase table op.level.operand signed u a := by
          refine phrase_of_buildSlice hstandsu ha (fun x hx => ?_) (fun hflag c hc => ?_)
          · rw [tightness_operand]
            exact hbefore x hx
          · refine hsigned hflag c ?_
            rw [List.head?_append, hc]
            rfl
        have hv : Phrase table (some op.level) (op.level = .sum) v b := by
          refine phrase_of_buildSlice hstandsv hb (fun x hx => ?_) (fun hflag => ?_)
          · exact hafter x (mem_operatorsFrom_of_mem_topOperators hx)
          · exact head_not_sign_of_rank_le hstandsv hltv hafter (of_decide_eq_false hflag)
        have hmem := mem_topOperators_of_principal? hprincipal
        exact (Phrase.chain hu hv).loosen (hrank _ hmem)
termination_by w.length

end Soundness

section Build

variable {table : VarTable} {text : List Char} {e : Expr}

theorem build_of_sum
    (h : Phrase table (some .sum) true text e) :
    build table text = .ok e := by
  have hbuild := buildSlice_of_phrase h (standsAt_zero text)
  rwa [Nat.zero_add] at hbuild

theorem sum_of_build
    (h : build table text = .ok e) :
    Phrase table (some .sum) true text e := by
  refine phrase_of_buildSlice (standsAt_zero text) ?_ (fun x _ => one_le_rank x.1.level) nofun
  rwa [Nat.zero_add]

/--
The builder accepts the sums of the grammar, each of which has one expression, and refuses every
other text.
-/
theorem build_iff_sum
    (table : VarTable) (text : List Char) :
    (∀ e, build table text = .ok e ↔ Phrase table (some .sum) true text e) ∧
      (∀ e e', Phrase table (some .sum) true text e →
        Phrase table (some .sum) true text e' → e = e') ∧
      ((∃ error, build table text = .error error) ↔
        ¬ ∃ e, Phrase table (some .sum) true text e) := by
  refine ⟨fun e => ⟨sum_of_build, build_of_sum⟩, fun e e' he he' => ?_, ?_⟩
  · have hbuild := build_of_sum he
    rw [build_of_sum he'] at hbuild
    exact (Except.ok.inj hbuild).symm
  · constructor
    · rintro ⟨error, herror⟩ ⟨e, he⟩
      rw [build_of_sum he] at herror
      cases herror
    · intro hnone
      cases hbuild : build table text with
      | error error =>
          exact ⟨error, rfl⟩
      | ok e =>
          exact absurd ⟨e, sum_of_build hbuild⟩ hnone

end Build

end Expr

end FormulaCalc
