import FormulaCalc.Proofs.Parsing
import FormulaCalc.Proofs.StarPositions
/-!
# Written products change nothing else

`insertStars` puts one star in front of each place where two operands meet, and does nothing else
to a text, be it well formed or not (`insertStars_transparent`).

The stars are put in while the text is being cut into tokens, and where a token ends may depend on
what stands behind it.  So the first section shows that a star never moves a cut: it stands behind
an operand, where no numeral goes on and no sign is waiting for its atom.  What the rewriting and
the automaton do with the written text then follows by induction along the tokens, up to the first
place where none starts; from there on the text is the same.
-/

namespace FormulaCalc

namespace ImplicitProduct

open Validity

section Cuts

variable {table : VarTable} {flag : Bool} {text rest rest' : List Char} {token : Token}

/-- A sign that opens a group is a token of its own only at the end of the text. -/
theorem rest_eq_nil_of_lone_sign
    {c : Char}
    (hsign : Token.isSign c)
    (h : Token.scan? table true (c :: rest) = some (token, rest'))
    (htext : token.text = [c]) :
    rest = [] := by
  refine Decidable.byContradiction fun hne => ?_
  have hcond : (true && Token.isSign c && !rest.isEmpty) = true := by
    simp [hsign, hne]
  rw [Token.scan?, if_pos hcond] at h
  obtain ⟨⟨found, behind⟩, hfound, heq⟩ := Option.map_eq_some_iff.1 h
  obtain ⟨rfl, -⟩ := Prod.mk.inj heq
  have hnil : found.text = [] := (List.cons.inj htext).2
  exact (Token.atom?_eq_some hfound).2 hnil

/--
A token ends where it does whatever stands behind it, as long as a numeral is not continued there
and the end of the text stays the end.
-/
theorem scan?_of_same_end
    (h : Token.scan? table flag (token.text ++ rest) = some (token, rest))
    (hend : rest = [] → rest' = [])
    (hahead : NoNumeralAhead rest → NoNumeralAhead rest') :
    Token.scan? table flag (token.text ++ rest') = some (token, rest') := by
  rcases scan?_cases h with ⟨numeral, hatom, -, hrest⟩ |
    ⟨sign, w, numeral, hflag, hsign, hatom, htext, -, hrest⟩ | ⟨c, htext, hsymbol⟩
  · have hfound := h.symm.trans (scan?_of_atom hatom hrest flag)
    have htoken := (Prod.mk.inj (Option.some.inj hfound)).1
    rw [scan?_of_atom hatom (fun hnumeral => hahead (hrest hnumeral)) flag, ← htoken]
  · subst hflag
    rw [htext] at h ⊢
    have hfound := h.symm.trans (scan?_of_signed hsign hatom hrest)
    have htoken := (Prod.mk.inj (Option.some.inj hfound)).1
    rw [scan?_of_signed hsign hatom (fun hnumeral => hahead (hrest hnumeral)), ← htoken]
  · rw [htext] at h ⊢
    by_cases hlone : flag = true ∧ Token.isSign c
    · obtain ⟨rfl, hsign⟩ := hlone
      obtain rfl : rest = [] := rest_eq_nil_of_lone_sign hsign h htext
      rw [hend rfl]
      exact h
    · have hnosign : flag = true → Token.isSign c = false := by
        simpa using hlone
      have hfound : Token.scan? table flag (c :: rest) = _ := scan?_of_symbol hsymbol hnosign
      have htoken := (Prod.mk.inj (Option.some.inj (h.symm.trans hfound))).1
      have hfound' : Token.scan? table flag (c :: rest') = _ := scan?_of_symbol hsymbol hnosign
      rw [← htoken] at hfound'
      exact hfound'

theorem kind_ne_number_of_symbol?
    {c : Char} {kind : Token.Kind} {inverted : Bool}
    (h : Token.symbol? c = some (kind, inverted)) :
    kind ≠ .number := by
  rcases symbol?_cases h with ⟨-, rfl⟩ | ⟨-, rfl⟩ | ⟨op, -, rfl⟩
  · nofun
  · nofun
  · cases op <;> nofun

theorem eq_true_of_number
    {numeral : Bool}
    (h : token.kind = atomKind numeral)
    (hkind : token.kind = .number) :
    numeral = true := by
  cases numeral with
  | true =>
      rfl
  | false =>
      rw [hkind] at h
      cases h

/-- A numeral is read to its end. -/
theorem noNumeralAhead_of_number
    (h : Token.scan? table flag text = some (token, rest))
    (hkind : token.kind = .number) :
    NoNumeralAhead rest := by
  rcases scan?_cases h with ⟨numeral, -, heq, hrest⟩ | ⟨_, _, numeral, -, -, -, -, heq, hrest⟩ |
    ⟨c, -, hsymbol⟩
  · exact hrest (eq_true_of_number heq hkind)
  · exact hrest (eq_true_of_number heq hkind)
  · exact absurd hkind (kind_ne_number_of_symbol? hsymbol)

/-- Inside a group, no numeral is read where none stands. -/
theorem kind_ne_number
    (h : Token.scan? table false text = some (token, rest))
    (hahead : NoNumeralAhead text) :
    token.kind ≠ .number := by
  intro hkind
  have htext := (Token.scan?_eq_some h).1
  rcases scan?_cases h with ⟨numeral, hatom, heq, -⟩ | ⟨_, _, _, hflag, -⟩ | ⟨c, -, hsymbol⟩
  · obtain rfl := eq_true_of_number heq hkind
    cases hatom with
    | numeral hn =>
        obtain ⟨c, n, hcons⟩ := List.exists_cons_of_ne_nil hn.ne_nil
        rw [hcons] at hn htext
        subst htext
        have hchar := hn.chars c List.mem_cons_self
        rw [hahead c rfl] at hchar
        cases hchar
  · cases hflag
  · exact kind_ne_number_of_symbol? hsymbol hkind

end Cuts

section Rewritten

variable {table : VarTable} {before : Option Token.Kind} {text rest : List Char} {token : Token}

/-- Where no token starts, the rewriting stops. -/
theorem rewriteFrom_stuck
    (hscan : Token.scan? table (atGroupStart before) text = none) :
    rewriteFrom table before text = text := by
  rw [rewriteFrom, walk_of_none hscan]
  rfl

theorem noNumeralAhead_rewriteFrom
    (before : Option Token.Kind)
    (h : NoNumeralAhead text) :
    NoNumeralAhead (rewriteFrom table before text) := by
  cases hscan : Token.scan? table (atGroupStart before) text with
  | none =>
      rw [rewriteFrom_stuck hscan]
      exact h
  | some found =>
      obtain ⟨token, rest⟩ := found
      obtain ⟨htext, hne⟩ := Token.scan?_eq_some hscan
      rw [rewriteFrom_step hscan]
      split
      · exact noNumeralAhead_cons rfl
      · obtain ⟨c, tail, hcons⟩ := List.exists_cons_of_ne_nil hne
        rw [hcons] at htext ⊢
        subst htext
        exact h

/-- The token that was cut off a text is cut off the rewritten text as well. -/
theorem scan?_rewritten
    {flag : Bool}
    (hscan : Token.scan? table flag text = some (token, rest)) :
    Token.scan? table flag (token.text ++ rewriteFrom table (some token.kind) rest) =
      some (token, rewriteFrom table (some token.kind) rest) := by
  have htext := (Token.scan?_eq_some hscan).1
  rw [← htext] at hscan
  refine scan?_of_same_end hscan ?_ (noNumeralAhead_rewriteFrom (some token.kind))
  rintro rfl
  exact rewriteFrom_nil (some token.kind)

theorem atGroupStart_of_needsStar
    {kind : Token.Kind}
    (h : needsStar before kind = true) :
    atGroupStart before = false := by
  rcases (needsStar_iff.1 h).1 with rfl | rfl | rfl <;> rfl

theorem scan?_star
    (flag : Bool) (text : List Char) :
    Token.scan? table flag ('*' :: text) = some (⟨.multiplicative, false, ['*']⟩, text) := by
  exact scan?_of_symbol rfl fun _ => rfl

/-- Behind a star that was put in, the operand is cut off in a second step. -/
theorem rewriteFrom_starred
    (hscan : Token.scan? table (atGroupStart before) text = some (token, rest))
    (hstar : needsStar before token.kind = true) :
    rewriteFrom table before ('*' :: text) =
      '*' :: token.text ++ rewriteFrom table (some token.kind) rest := by
  have hflag := atGroupStart_of_needsStar hstar
  have hnone : needsStar before .multiplicative = false :=
    needsStar_eq_false before (.inr ⟨.product, rfl⟩)
  have hnone' : needsStar (some .multiplicative) token.kind = false := by
    rfl
  rw [hflag] at hscan
  have hnext : rewriteFrom table (some .multiplicative) text =
      (if needsStar (some .multiplicative) token.kind then ['*'] else []) ++ token.text
        ++ rewriteFrom table (some token.kind) rest :=
    rewriteFrom_step hscan
  rw [rewriteFrom_step (scan?_star _ text), hnone, hnext, hnone']
  rfl

/-- **Rewriting a text twice is rewriting it once.** -/
theorem rewriteFrom_rewriteFrom
    (before : Option Token.Kind) (text : List Char) :
    rewriteFrom table before (rewriteFrom table before text) = rewriteFrom table before text := by
  cases hscan : Token.scan? table (atGroupStart before) text with
  | none =>
      rw [rewriteFrom_stuck hscan, rewriteFrom_stuck hscan]
  | some found =>
      obtain ⟨token, rest⟩ := found
      have hshorter := Token.length_rest_lt hscan
      have ih := rewriteFrom_rewriteFrom (some token.kind) rest
      have hcut := scan?_rewritten hscan
      rw [rewriteFrom_step hscan]
      cases hstar : needsStar before token.kind with
      | true =>
          have hstarred := rewriteFrom_starred hcut hstar
          rw [ih] at hstarred
          exact hstarred
      | false =>
          have hplain := rewriteFrom_step hcut
          rw [hstar, ih] at hplain
          exact hplain
termination_by text.length

end Rewritten

section Verdict

variable {table : VarTable}

/-- The state of the automaton behind a token of the given kind, or at the start of the text. -/
def stateBehind : Option Token.Kind → State
  | none => .start
  | some kind => .after (some kind)

theorem stateBehind_eq_start_iff
    (before : Option Token.Kind) :
    decide (stateBehind before = .start) = atGroupStart before := by
  cases before with
  | none =>
      rfl
  | some kind =>
      cases kind <;> rfl

/-- The state behind an operand admits whatever operand may be read there. -/
theorem admits_of_needsStar
    {before : Option Token.Kind} {kind : Token.Kind}
    (hstar : needsStar before kind = true)
    (hnumber : before = some .number → kind ≠ .number) :
    (stateBehind before).admits kind = true := by
  rcases (needsStar_iff.1 hstar).1 with rfl | rfl | rfl
  · have hne := hnumber rfl
    simp [stateBehind, State.after, State.admits, hne]
  · rfl
  · rfl

/-- A star between operands takes the automaton to where it admits the second operand as well. -/
theorem accepts_starred
    {before : Option Token.Kind} {text rest : List Char} {token : Token}
    (depth : Nat)
    (hscan : Token.scan? table (atGroupStart before) text = some (token, rest))
    (hstar : needsStar before token.kind = true)
    (hnumber : before = some .number → token.kind ≠ .number) :
    accepts table (stateBehind before) depth ('*' :: text) =
      accepts table (stateBehind before) depth text := by
  have hflag := atGroupStart_of_needsStar hstar
  obtain ⟨hbefore, hoperand⟩ := needsStar_iff.1 hstar
  have hadmits : (stateBehind before).admits .multiplicative = true := by
    rcases hbefore with rfl | rfl | rfl <;> rfl
  have hadmits' : State.operator.admits token.kind = true := by
    rcases hoperand with hkind | hkind | hkind <;> rw [hkind] <;> rfl
  obtain ⟨behind, hdepth⟩ : ∃ behind, depthAfter? depth token.kind = some behind := by
    rcases hoperand with hkind | hkind | hkind <;> rw [hkind] <;> exact ⟨_, rfl⟩
  have hscan' : Token.scan? table (State.operator = .start) text = some (token, rest) := by
    rw [hflag] at hscan
    exact hscan
  rw [← stateBehind_eq_start_iff] at hscan
  rw [accepts_step (scan?_star _ text) hadmits rfl,
    accepts_step hscan (admits_of_needsStar hstar hnumber) hdepth]
  exact accepts_step hscan' hadmits' hdepth

/-- **The automaton gives the same verdict on the rewritten text.** -/
theorem accepts_rewriteFrom
    (before : Option Token.Kind) (depth : Nat) (text : List Char)
    (hahead : before = some .number → NoNumeralAhead text) :
    accepts table (stateBehind before) depth (rewriteFrom table before text) =
      accepts table (stateBehind before) depth text := by
  cases hscan : Token.scan? table (atGroupStart before) text with
  | none =>
      rw [rewriteFrom_stuck hscan]
  | some found =>
      obtain ⟨token, rest⟩ := found
      have hshorter := Token.length_rest_lt hscan
      have ih (behind : Nat) := accepts_rewriteFrom (some token.kind) behind rest fun hkind =>
        noNumeralAhead_of_number hscan (Option.some.inj hkind)
      have hcut := scan?_rewritten hscan
      have hwritten : accepts table (stateBehind before) depth
          (token.text ++ rewriteFrom table (some token.kind) rest) =
            accepts table (stateBehind before) depth text := by
        rw [accepts_eq, accepts_eq, stateBehind_eq_start_iff, hcut, hscan]
        dsimp only
        congr 2
        exact funext ih
      rw [rewriteFrom_step hscan]
      cases hstar : needsStar before token.kind with
      | true =>
          have hnumber : before = some .number → token.kind ≠ .number := by
            intro hbefore
            rw [atGroupStart_of_needsStar hstar] at hscan
            exact kind_ne_number hscan (hahead hbefore)
          exact (accepts_starred depth hcut hstar hnumber).trans hwritten
      | false =>
          exact hwritten
termination_by text.length

theorem isValid_insertStars
    (table : VarTable) (text : List Char) :
    isValid table (insertStars table text) = isValid table text := by
  exact accepts_rewriteFrom none 0 text nofun

theorem insertStars_insertStars
    (table : VarTable) (text : List Char) :
    insertStars table (insertStars table text) = insertStars table text := by
  exact rewriteFrom_rewriteFrom none text

/-- A text with its products written has the expression of the text. -/
theorem parse?_insertStars
    (table : VarTable) (text : List Char) :
    Equation.parse? table (insertStars table text) = Equation.parse? table text := by
  rw [Equation.parse?, Equation.parse?, Equation.parse, Equation.parse, isValid_insertStars,
    insertStars_insertStars]
  cases isValid table text with
  | false =>
      rfl
  | true =>
      cases Expr.build table (insertStars table text) <;> rfl

end Verdict

section Transparency

/--
The rewriting puts one star in front of every position at which two operands meet, and keeps all
else.  The positions it reports are these, in increasing order, and a parse that gets so far reports
them.  Rewriting again changes nothing, and the rewritten text is as valid as the text was and has
the same expression.
-/
theorem insertStars_transparent
    (table : VarTable) (text : List Char) :
    insertStars table text = starsFrom (starPositions table text) 0 text ∧
      (∀ i, i ∈ starPositions table text ↔ MeetAt table text i) ∧
      (starPositions table text).Pairwise (· < ·) ∧
      (isValid table text = true →
        (Equation.parse table text).2 = (starPositions table text).map .starInserted) ∧
      insertStars table (insertStars table text) = insertStars table text ∧
      isValid table (insertStars table text) = isValid table text ∧
      Equation.parse? table (insertStars table text) = Equation.parse? table text := by
  refine ⟨insertStars_eq_starsFrom table text, fun i => mem_starPositions_iff,
    starPositions_sorted table text, fun h => ?_, insertStars_insertStars table text,
    isValid_insertStars table text, parse?_insertStars table text⟩
  obtain ⟨e, hbuild⟩ := Equation.exists_build_of_isValid h
  rw [Equation.parse_of_build h hbuild]

end Transparency

end ImplicitProduct

end FormulaCalc
