import FormulaCalc.Session.Basic
/-!
# The toolkit behind the window

The window is drawn in frames by a toolkit that is not part of the calculator.  In each frame the
toolkit hands on what the user does, and it alone knows two things that the window has to ask for:
whether the entry field has the keyboard focus, and which value a value field has come to hold.

A `Toolkit` is any way to answer these questions, from a memory of its own.  What a theorem takes
for granted about the answers stands among its hypotheses (`Toolkit.YieldsFocus`);
`Toolkit.standard` is a toolkit to run the window with.
-/

namespace FormulaCalc

/-- The buttons of the window. -/
inductive Button where
  | clearEntry
  | clearOutputs
  | reset
  | backspace
  | evaluate
  /-- Puts its label into the entry. -/
  | insert (c : Char)
  /-- Folds and unfolds the steps of the calculation. -/
  | fold
deriving DecidableEq

/-- The label of a button. -/
def Button.label : Button → String
  | clearEntry => "C"
  | clearOutputs => "CLR"
  | reset => "AC"
  | backspace => "DEL"
  | evaluate => "="
  | insert c => c.toString
  | fold => "Démarche"

namespace Window

/-- The keys the window listens to. -/
inductive Key where
  | escape
  | enter
deriving DecidableEq

/-- What a user does in one frame. -/
inductive Gesture where
  | click (button : Button)
  | key (key : Key)
  /-- Type in the entry field until it holds this text. -/
  | edit (text : List Char)
  /-- Set the field of the shown letter with this rank. -/
  | adjust (rank : Nat) (value : Binary64)
  /-- Do nothing. -/
  | look
deriving DecidableEq

end Window

open Window

/-- What draws the window, as far as the window has to ask it. -/
structure Toolkit where
  /-- What is kept from frame to frame. -/
  Memory : Type
  start : Memory
  /--
  Whether the entry field has the focus when the window asks; it may have requested the focus before,
  in the same frame.
  -/
  hasFocus : Memory → Gesture → (requested : Bool) → Bool
  /-- The value that a field reports, if it reports a change: it showed one, the user set another. -/
  change? : Memory → (shown set : Binary64) → Option Binary64
  /-- What is kept behind a frame in which the window has drawn this session. -/
  next : Memory → Session → Gesture → Memory

namespace Toolkit

/--
Whether the entry field gives up the focus in every frame in which the Enter key is pressed, before
the window asks, so that it has the focus only if the window has requested it in that frame.
-/
def YieldsFocus (toolkit : Toolkit) : Prop :=
  ∀ memory requested, toolkit.hasFocus memory (.key .enter) requested = requested

/-- Whether a gesture leaves the focus where it is. -/
def keepsFocus : Gesture → Bool
  | .edit _ | .look => true
  | .click _ | .key _ | .adjust _ _ => false

/--
A toolkit that remembers whether the entry field has the focus.  Its value fields report a value if
it differs from the one shown, so one zero cannot be put in place of the other.
-/
def standard : Toolkit where
  Memory := Bool
  start := false
  hasFocus focused gesture requested := requested || focused && keepsFocus gesture
  change? _ shown set := if shown.numericEq set then none else some set
  next focused s gesture :=
    s.wantsFocus || gesture = .key .escape || focused && keepsFocus gesture

theorem yieldsFocus_standard :
    standard.YieldsFocus := by
  intro focused requested
  cases focused <;> cases requested <;> rfl

end Toolkit

end FormulaCalc
