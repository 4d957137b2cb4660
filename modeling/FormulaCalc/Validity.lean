import FormulaCalc.Token.Walk
/-!
# Well-formed equations

A text is well formed when an automaton with a bracket depth accepts its tokens.  The automaton
reads from left to right and asks the scanner for one token at a time, telling it whether a group
starts here.  It stops at the first place where no token starts, at the first token its state does
not admit, and at a closing bracket without an opening one; at the end of the text all brackets
must be closed and an operand must have come last.

`inspect` returns the tokens that were read together with the verdict.
-/

namespace FormulaCalc

namespace Validity

/-- What was read last. -/
inductive State where
  /-- Nothing yet, or an opening bracket. -/
  | start
  | numeric
  | letterSeen
  | endOfBracket
  | operator
  /-- No token. -/
  | invalid
deriving DecidableEq, Repr

namespace State

/-- Whether a token of this kind may come next. -/
def admits : State → Token.Kind → Bool
  | start, kind | operator, kind =>
    kind = .number || kind = .letter || kind = .opening
  | numeric, kind => kind ≠ .number
  | letterSeen, _ | endOfBracket, _ => true
  | invalid, _ => false

/-- The state after a token of the given kind, or after no token. -/
def after : Option Token.Kind → State
  | some .letter => letterSeen
  | some .number => numeric
  | some .opening => start
  | some .closing => endOfBracket
  | some .power | some .additive | some .multiplicative => operator
  | none => invalid

/-- Whether a text may end here: not where an operand is due. -/
def mayEnd : State → Bool
  | start | operator => false
  | _ => true

end State

/-- The bracket depth behind a token, or nothing for a closing bracket that closes none. -/
def depthAfter? (depth : Nat) : Token.Kind → Option Nat
  | .opening => some (depth + 1)
  | .closing => if depth = 0 then none else some (depth - 1)
  | _ => some depth

/-- The tokens read from a state at a bracket depth, and whether the text is accepted. -/
def inspect (table : VarTable) (state : State) (depth : Nat) (text : List Char) :
    List Token × Bool :=
  match _h : Token.scan? table (state = .start) text with
  | none => ([], text.isEmpty && depth = 0 && state.mayEnd)
  | some (token, rest) =>
    match state.admits token.kind, depthAfter? depth token.kind with
    | true, some depth =>
      let next := inspect table (State.after (some token.kind)) depth rest
      (token :: next.1, next.2)
    | _, _ => ([token], false)
termination_by text.length
decreasing_by exact Token.length_rest_lt (by assumption)

/-- Whether a text is a well-formed equation over the letters of the table. -/
def isValid (table : VarTable) (text : List Char) : Bool :=
  (inspect table .start 0 text).2

end Validity

end FormulaCalc
