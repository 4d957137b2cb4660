import FormulaCalc.Proofs.Scanning
import FormulaCalc.Validity
/-!
# Well-formed equations have a grammar

The automaton of `Validity` is compared with a grammar over the characters:

    group    ::=  [sign] atom tail  |  ( group ) tail
    tail     ::=  nothing  |  operator operand tail  |  operand tail
    operand  ::=  atom  |  ( group )

where a numeral never stands directly behind a numeral.

In one direction the automaton reads any word of the grammar, whatever is still open around it
(`accepts_of_group`).  In the other, an accepting run from a state at some bracket depth spells the
rest of a word in every group that is open (`closes_of_accepts`); this is the invariant that
connects the states and the depth with the grammar.
-/

namespace FormulaCalc

namespace Validity

/-- The parts of an equation; a tail remembers whether a numeral stands before it. -/
inductive Part where
  | group
  | operand (numeral : Bool)
  | tail (afterNumeral : Bool)

/-- Derivations of the parts of equations. -/
inductive WellFormed (table : VarTable) : Part → List Char → Prop
  | atom {numeral : Bool} {w : List Char} :
      Atom table numeral w →
      WellFormed table (.operand numeral) w
  | bracketed {w : List Char} :
      WellFormed table .group w →
      WellFormed table (.operand false) ('(' :: w ++ [')'])
  | signed {sign : Char} {numeral : Bool} {w rest : List Char} :
      Token.isSign sign →
      Atom table numeral w →
      WellFormed table (.tail numeral) rest →
      WellFormed table .group (sign :: w ++ rest)
  | unsigned {numeral : Bool} {w rest : List Char} :
      WellFormed table (.operand numeral) w →
      WellFormed table (.tail numeral) rest →
      WellFormed table .group (w ++ rest)
  | nothing {afterNumeral : Bool} :
      WellFormed table (.tail afterNumeral) []
  | operator {op : Operator} {afterNumeral numeral : Bool} {w rest : List Char} :
      WellFormed table (.operand numeral) w →
      WellFormed table (.tail numeral) rest →
      WellFormed table (.tail afterNumeral) (op.symbol :: w ++ rest)
  | product {afterNumeral numeral : Bool} {w rest : List Char} :
      (afterNumeral && numeral) = false →
      WellFormed table (.operand numeral) w →
      WellFormed table (.tail numeral) rest →
      WellFormed table (.tail afterNumeral) (w ++ rest)

/-- Whether the automaton accepts a text from a state at a bracket depth. -/
def accepts (table : VarTable) (state : State) (depth : Nat) (text : List Char) : Bool :=
  (inspect table state depth text).2

section Steps

variable {table : VarTable} {state : State} {depth : Nat} {text rest : List Char}

theorem accepts_eq
    (table : VarTable) (state : State) (depth : Nat) (text : List Char) :
    accepts table state depth text =
      match Token.scan? table (state = .start) text with
      | none => text.isEmpty && depth = 0 && state.mayEnd
      | some (token, rest) =>
          state.admits token.kind &&
            (depthAfter? depth token.kind).any
              fun behind => accepts table (.after (some token.kind)) behind rest := by
  rw [accepts, inspect]
  split
  · next hscan =>
      rw [hscan]
  · next token rest hscan =>
      rw [hscan]
      dsimp only
      cases state.admits token.kind with
      | false =>
          rfl
      | true =>
          cases depthAfter? depth token.kind <;> rfl

/-- The automaton takes one token that its state admits. -/
theorem accepts_step
    {token : Token} {behind : Nat}
    (hscan : Token.scan? table (state = .start) text = some (token, rest))
    (hadmits : state.admits token.kind = true)
    (hdepth : depthAfter? depth token.kind = some behind) :
    accepts table state depth text =
      accepts table (.after (some token.kind)) behind rest := by
  rw [accepts_eq, hscan]
  simp [hadmits, hdepth]

/-- An accepting run is over, or starts with a token that the state admits. -/
theorem accepts_cases
    (h : accepts table state depth text = true) :
    (text = [] ∧ depth = 0 ∧ state.mayEnd = true) ∨
      ∃ token rest behind,
        Token.scan? table (state = .start) text = some (token, rest) ∧
        state.admits token.kind = true ∧
        depthAfter? depth token.kind = some behind ∧
        accepts table (.after (some token.kind)) behind rest = true := by
  rw [accepts_eq] at h
  split at h
  · simp only [Bool.and_eq_true, List.isEmpty_iff, decide_eq_true_eq] at h
    exact .inl ⟨h.1.1, h.1.2, h.2⟩
  · next token rest hscan =>
      obtain ⟨hadmits, hrest⟩ := Bool.and_eq_true_iff.1 h
      obtain ⟨behind, hdepth, hrest⟩ := (Option.any_eq_true _ _).1 hrest
      exact .inr ⟨token, rest, behind, hscan, hadmits, hdepth, hrest⟩

end Steps

section Forward

variable {table : VarTable} {depth : Nat}

/-- The end of the text, or of a group. -/
def AtGroupEnd (rest : List Char) : Prop :=
  rest = [] ∨ ∃ behind, rest = ')' :: behind

theorem AtGroupEnd.noNumeralAhead
    {rest : List Char}
    (h : AtGroupEnd rest) :
    NoNumeralAhead rest := by
  rcases h with rfl | ⟨behind, rfl⟩
  · exact noNumeralAhead_nil
  · exact noNumeralAhead_cons rfl

/-- The state behind an operand; behind a letter it is as good as behind a bracket. -/
def stateAfter : Bool → State
  | true => .numeric
  | false => .endOfBracket

/-- States that admit the next token alike, and end alike, accept the same texts. -/
theorem accepts_congr
    {state state' : State} {text : List Char}
    (hstate : state ≠ .start)
    (hstate' : state' ≠ .start)
    (hend : state.mayEnd = state'.mayEnd)
    (hadmits : ∀ token rest, Token.scan? table false text = some (token, rest) →
      state.admits token.kind = state'.admits token.kind) :
    accepts table state depth text = accepts table state' depth text := by
  rw [accepts_eq, accepts_eq, decide_eq_false hstate, decide_eq_false hstate']
  cases hscan : Token.scan? table false text with
  | none =>
      rw [hend]
  | some found =>
      obtain ⟨token, rest⟩ := found
      dsimp only
      rw [hadmits token rest hscan]

theorem accepts_letterSeen
    (text : List Char) :
    accepts table .letterSeen depth text = accepts table .endOfBracket depth text := by
  exact accepts_congr nofun nofun rfl fun _ _ _ => rfl

theorem accepts_after_atom
    (numeral : Bool) (text : List Char) :
    accepts table (.after (some (atomKind numeral))) depth text =
      accepts table (stateAfter numeral) depth text := by
  cases numeral with
  | true =>
      rfl
  | false =>
      exact accepts_letterSeen text

/-- At the end of a group it does not matter whether a numeral was last. -/
theorem accepts_stateAfter_of_groupEnd
    {rest : List Char}
    (h : AtGroupEnd rest)
    (numeral : Bool) :
    accepts table (stateAfter numeral) depth rest = accepts table .endOfBracket depth rest := by
  cases numeral with
  | false =>
      rfl
  | true =>
      refine accepts_congr nofun nofun rfl fun token behind hscan => ?_
      rcases h with rfl | ⟨_, rfl⟩
      · cases hscan
      · rw [scan?_closing] at hscan
        obtain ⟨rfl, rfl⟩ := Prod.mk.inj (Option.some.inj hscan)
        rfl

theorem noNumeralAhead_operand
    {w : List Char}
    (h : WellFormed table (.operand false) w)
    (rest : List Char) :
    NoNumeralAhead (w ++ rest) := by
  cases h with
  | atom hatom =>
      exact hatom.noNumeralAhead_append rest
  | bracketed _ =>
      exact noNumeralAhead_cons rfl

/-- Behind a numeral no tail continues it. -/
theorem noNumeralAhead_tail
    {numeral : Bool} {w rest : List Char}
    (h : WellFormed table (.tail numeral) w)
    (hend : AtGroupEnd rest)
    (hnumeral : numeral = true) :
    NoNumeralAhead (w ++ rest) := by
  cases h with
  | nothing =>
      exact hend.noNumeralAhead
  | @operator op _ _ _ _ _ _ =>
      obtain ⟨inverted, hsymbol⟩ := symbol?_symbol op
      exact noNumeralAhead_cons (isNumeralChar_eq_false_of_symbol? hsymbol)
  | product hnot hoperand _ =>
      rw [hnumeral, Bool.true_and] at hnot
      subst hnot
      rw [List.append_assoc]
      exact noNumeralAhead_operand hoperand _

theorem depthAfter?_atomKind
    (numeral : Bool) :
    depthAfter? depth (atomKind numeral) = some depth := by
  cases numeral <;> rfl

theorem admits_opening
    {state : State}
    (hstate : state ≠ .invalid) :
    state.admits .opening = true := by
  cases state <;> first | rfl | exact absurd rfl hstate

theorem admits_atomKind
    {state : State} {numeral : Bool}
    (hstate : state ≠ .invalid)
    (hnumeral : state = .numeric → numeral = false) :
    state.admits (atomKind numeral) = true := by
  cases state <;> cases numeral <;>
    first | rfl | exact absurd rfl hstate | exact absurd (hnumeral rfl) (by decide)

theorem accepts_operator
    (op : Operator) (numeral : Bool) (rest : List Char) :
    accepts table (stateAfter numeral) depth (op.symbol :: rest) =
      accepts table .operator depth rest := by
  obtain ⟨inverted, hscan⟩ : ∃ inverted, Token.scan? table false (op.symbol :: rest) =
      some (⟨operatorKind op.level, inverted, [op.symbol]⟩, rest) := scan?_operator op
  have hstart : decide (stateAfter numeral = .start) = false := by
    cases numeral <;> rfl
  have hadmits : (stateAfter numeral).admits (operatorKind op.level) = true := by
    cases numeral <;> cases op <;> rfl
  have hdepth : depthAfter? depth (operatorKind op.level) = some depth := by
    cases op <;> rfl
  have hafter : State.after (some (operatorKind op.level)) = .operator := by
    cases op <;> rfl
  rw [accepts_step (by rw [hstart, hscan]) hadmits hdepth, hafter]

/-- What the automaton does along a part of an equation, with any text behind it. -/
def ReadsPart (table : VarTable) : Part → List Char → Prop
  | .group, w =>
      ∀ depth rest, AtGroupEnd rest →
        accepts table .start depth (w ++ rest) = accepts table .endOfBracket depth rest
  | .operand numeral, w =>
      ∀ state depth rest, state ≠ .invalid → (state = .numeric → numeral = false) →
        (numeral = true → NoNumeralAhead rest) →
        accepts table state depth (w ++ rest) = accepts table (stateAfter numeral) depth rest
  | .tail afterNumeral, w =>
      ∀ depth rest, AtGroupEnd rest →
        accepts table (stateAfter afterNumeral) depth (w ++ rest) =
          accepts table .endOfBracket depth rest

/-- **The automaton reads every part of an equation to its end.** -/
theorem readsPart
    {part : Part} {w : List Char}
    (h : WellFormed table part w) :
    ReadsPart table part w := by
  induction h with
  | @atom numeral w hatom =>
      intro state depth rest hstate hnumeral hrest
      have hscan := scan?_of_atom hatom hrest (state = .start)
      rw [accepts_step hscan (admits_atomKind hstate hnumeral) (depthAfter?_atomKind numeral),
        accepts_after_atom]
  | @bracketed w _ ih =>
      intro state depth rest hstate _ _
      have hassoc : '(' :: w ++ [')'] ++ rest = '(' :: (w ++ ')' :: rest) := by
        simp
      have hinner : accepts table .start (depth + 1) (w ++ ')' :: rest) =
          accepts table .endOfBracket (depth + 1) (')' :: rest) :=
        ih (depth + 1) (')' :: rest) (.inr ⟨rest, rfl⟩)
      rw [hassoc, accepts_step (scan?_opening _) (admits_opening hstate) rfl]
      exact hinner.trans (accepts_step (scan?_closing _) rfl rfl)
  | @signed sign numeral w rest hsign hatom hrest ih =>
      intro depth behind hend
      have hscan := scan?_of_signed hsign hatom (noNumeralAhead_tail hrest hend)
      have hadmits : State.start.admits (atomKind numeral) = true := by
        cases numeral <;> rfl
      rw [List.append_assoc, accepts_step hscan hadmits (depthAfter?_atomKind numeral),
        accepts_after_atom]
      exact ih depth behind hend
  | @unsigned numeral w rest _ hrest ihw ih =>
      intro depth behind hend
      rw [List.append_assoc,
        ihw .start depth (rest ++ behind) nofun nofun (noNumeralAhead_tail hrest hend)]
      exact ih depth behind hend
  | @nothing afterNumeral =>
      intro depth rest hend
      exact accepts_stateAfter_of_groupEnd hend afterNumeral
  | @operator op afterNumeral numeral w rest _ hrest ihw ih =>
      intro depth behind hend
      have hassoc : op.symbol :: w ++ rest ++ behind = op.symbol :: (w ++ (rest ++ behind)) := by
        simp
      rw [hassoc, accepts_operator,
        ihw .operator depth (rest ++ behind) nofun nofun (noNumeralAhead_tail hrest hend)]
      exact ih depth behind hend
  | @product afterNumeral numeral w rest hnot _ hrest ihw ih =>
      intro depth behind hend
      have hnumeral : stateAfter afterNumeral = .numeric → numeral = false := by
        intro hstate
        cases afterNumeral with
        | true =>
            simpa using hnot
        | false =>
            cases hstate
      have hvalid : stateAfter afterNumeral ≠ .invalid := by
        cases afterNumeral <;> nofun
      rw [List.append_assoc,
        ihw _ depth (rest ++ behind) hvalid hnumeral (noNumeralAhead_tail hrest hend)]
      exact ih depth behind hend

theorem accepts_of_group
    {text : List Char}
    (h : WellFormed table .group text) :
    accepts table .start 0 text = true := by
  have hread : accepts table .start 0 (text ++ []) = accepts table .endOfBracket 0 [] :=
    readsPart h 0 [] (.inl rfl)
  rw [List.append_nil] at hread
  rw [hread, accepts_eq]
  rfl

end Forward

section Backward

variable {table : VarTable} {state : State} {text : List Char}

/-- What may still be read in the innermost open group. -/
def Continues (table : VarTable) : State → List Char → Prop
  | .start, text => WellFormed table .group text
  | .numeric, text => WellFormed table (.tail true) text
  | .letterSeen, text | .endOfBracket, text => WellFormed table (.tail false) text
  | .operator, text =>
      ∃ numeral w rest,
        text = w ++ rest ∧
        WellFormed table (.operand numeral) w ∧
        WellFormed table (.tail numeral) rest
  | .invalid, _ => False

/-- What may still be read in all open groups; each of them but the last ends with its bracket. -/
def Closes (table : VarTable) (state : State) : Nat → List Char → Prop
  | 0, text => Continues table state text
  | depth + 1, text =>
      ∃ u rest,
        text = u ++ ')' :: rest ∧
        Continues table state u ∧
        Closes table .endOfBracket depth rest

theorem Closes.prepend
    {state' : State} {depth : Nat} {w : List Char}
    (h : Closes table state' depth text)
    (hcontinues : ∀ u, Continues table state' u → Continues table state (w ++ u)) :
    Closes table state depth (w ++ text) := by
  cases depth with
  | zero =>
      exact hcontinues text h
  | succ depth =>
      obtain ⟨u, rest, rfl, hu, hrest⟩ := h
      exact ⟨w ++ u, rest, by simp, hcontinues u hu, hrest⟩

theorem continues_nil
    (hvalid : state ≠ .invalid)
    (hend : state.mayEnd = true) :
    Continues table state [] := by
  cases state with
  | numeric | letterSeen | endOfBracket =>
      exact .nothing
  | start | operator =>
      cases hend
  | invalid =>
      exact absurd rfl hvalid

theorem continues_operand
    {numeral : Bool} {w rest : List Char}
    (hvalid : state ≠ .invalid)
    (hnumeral : state = .numeric → numeral = false)
    (hw : WellFormed table (.operand numeral) w)
    (hrest : WellFormed table (.tail numeral) rest) :
    Continues table state (w ++ rest) := by
  cases state with
  | start =>
      exact .unsigned hw hrest
  | numeric =>
      exact .product (by rw [hnumeral rfl]; rfl) hw hrest
  | letterSeen | endOfBracket =>
      exact .product rfl hw hrest
  | operator =>
      exact ⟨numeral, w, rest, rfl, hw, hrest⟩
  | invalid =>
      exact absurd rfl hvalid

theorem continues_operator
    {op : Operator}
    (hvalid : state ≠ .invalid)
    (hend : state.mayEnd = true)
    (h : Continues table .operator text) :
    Continues table state (op.symbol :: text) := by
  obtain ⟨numeral, w, rest, rfl, hw, hrest⟩ := h
  cases state with
  | numeric | letterSeen | endOfBracket =>
      exact .operator hw hrest
  | start | operator =>
      cases hend
  | invalid =>
      exact absurd rfl hvalid

theorem continues_after_atom
    {numeral : Bool} {rest : List Char}
    (h : Continues table (.after (some (atomKind numeral))) rest) :
    WellFormed table (.tail numeral) rest := by
  cases numeral <;> exact h

theorem after_ne_invalid
    (kind : Token.Kind) :
    State.after (some kind) ≠ .invalid := by
  cases kind <;> decide

theorem ne_invalid_of_admits
    {kind : Token.Kind}
    (h : state.admits kind = true) :
    state ≠ .invalid := by
  rintro rfl
  cases h

/-- Only behind an operand may an operator or a closing bracket come. -/
theorem mayEnd_of_admits
    {kind : Token.Kind}
    (h : state.admits kind = true)
    (hkind : kind = .closing ∨ ∃ level, kind = operatorKind level) :
    state.mayEnd = true := by
  rcases hkind with rfl | ⟨level, rfl⟩
  · cases state <;> first | rfl | cases h
  · cases state <;> first | rfl | (cases level <;> cases h)

theorem closes_atom
    {depth : Nat} {numeral : Bool} {w rest : List Char}
    (hadmits : state.admits (atomKind numeral) = true)
    (hatom : Atom table numeral w)
    (h : Closes table (.after (some (atomKind numeral))) depth rest) :
    Closes table state depth (w ++ rest) := by
  have hnumeral : state = .numeric → numeral = false := by
    rintro rfl
    cases numeral with
    | true =>
        cases hadmits
    | false =>
        rfl
  refine h.prepend fun u hu => ?_
  exact continues_operand (ne_invalid_of_admits hadmits) hnumeral (.atom hatom)
    (continues_after_atom hu)

theorem closes_signed_atom
    {depth : Nat} {sign : Char} {numeral : Bool} {w rest : List Char}
    (hsign : Token.isSign sign)
    (hatom : Atom table numeral w)
    (h : Closes table (.after (some (atomKind numeral))) depth rest) :
    Closes table .start depth (sign :: w ++ rest) := by
  refine h.prepend fun u hu => ?_
  exact .signed hsign hatom (continues_after_atom hu)

/-- The group opened here is an operand of the group around it. -/
theorem closes_opening
    {depth : Nat} {rest : List Char}
    (hvalid : state ≠ .invalid)
    (h : Closes table .start (depth + 1) rest) :
    Closes table state depth ('(' :: rest) := by
  obtain ⟨u, outer, rfl, hu, houter⟩ := h
  have hassoc : '(' :: (u ++ ')' :: outer) = '(' :: u ++ [')'] ++ outer := by
    simp
  rw [hassoc]
  refine houter.prepend fun v hv => ?_
  exact continues_operand hvalid (fun _ => rfl) (.bracketed hu) hv

theorem closes_closing
    {depth : Nat} {rest : List Char}
    (hvalid : state ≠ .invalid)
    (hend : state.mayEnd = true)
    (h : Closes table .endOfBracket depth rest) :
    Closes table state (depth + 1) (')' :: rest) := by
  exact ⟨[], rest, rfl, continues_nil hvalid hend, h⟩

theorem closes_operator
    {depth : Nat} {op : Operator} {rest : List Char}
    (hvalid : state ≠ .invalid)
    (hend : state.mayEnd = true)
    (h : Closes table (.after (some (operatorKind op.level))) depth rest) :
    Closes table state depth (op.symbol :: rest) := by
  have hafter : State.after (some (operatorKind op.level)) = .operator := by
    cases op <;> rfl
  rw [hafter] at h
  have hprepend : Closes table state depth ([op.symbol] ++ rest) :=
    h.prepend fun u hu => continues_operator hvalid hend hu
  exact hprepend

/-- **An accepting run spells the rest of every open group.** -/
theorem closes_of_accepts
    {state : State} {depth : Nat} {text : List Char}
    (hvalid : state ≠ .invalid)
    (h : accepts table state depth text = true) :
    Closes table state depth text := by
  rcases accepts_cases h with ⟨rfl, rfl, hend⟩ |
    ⟨token, rest, behind, hscan, hadmits, hdepth, hrest⟩
  · exact continues_nil hvalid hend
  · have htext := (Token.scan?_eq_some hscan).1
    have hshorter := Token.length_rest_lt hscan
    have ih := closes_of_accepts (after_ne_invalid token.kind) hrest
    subst htext
    rcases scan?_cases hscan with ⟨numeral, hatom, hkind, -⟩ |
      ⟨sign, w, numeral, hstart, hsign, hatom, hw, hkind, -⟩ | ⟨c, hc, hsymbol⟩
    · rw [hkind] at ih hadmits hdepth
      rw [depthAfter?_atomKind] at hdepth
      obtain rfl := Option.some.inj hdepth
      exact closes_atom hadmits hatom ih
    · rw [hkind] at ih hdepth
      rw [depthAfter?_atomKind] at hdepth
      obtain rfl := Option.some.inj hdepth
      obtain rfl := of_decide_eq_true hstart
      rw [hw]
      exact closes_signed_atom hsign hatom ih
    · rw [hc]
      rcases symbol?_cases hsymbol with ⟨rfl, hkind⟩ | ⟨rfl, hkind⟩ | ⟨op, rfl, hkind⟩
      · rw [hkind] at ih hdepth
        obtain rfl := Option.some.inj hdepth
        exact closes_opening hvalid ih
      · have hend := mayEnd_of_admits hadmits (.inl hkind)
        rw [hkind] at ih hdepth
        cases depth with
        | zero =>
            cases hdepth
        | succ depth =>
            obtain rfl := Option.some.inj hdepth
            exact closes_closing hvalid hend ih
      · have hend := mayEnd_of_admits hadmits (.inr ⟨op.level, hkind⟩)
        rw [hkind] at ih hdepth
        have hbehind : behind = depth := by
          cases op <;> exact (Option.some.inj hdepth).symm
        rw [hbehind] at ih
        exact closes_operator hvalid hend ih
termination_by text.length

theorem group_of_accepts
    (h : accepts table .start 0 text = true) :
    WellFormed table .group text := by
  exact closes_of_accepts (by decide) h

end Backward

end Validity

end FormulaCalc
