import FormulaCalc.Registry
import FormulaCalc.Session.Evaluation
import FormulaCalc.Session.Toolkit
/-!
# The calculator window

Which buttons and value fields the window has, what it writes, and what becomes of a session in a
frame.  Letters are offered as buttons and fields when their slot is one of those whose values can
be set.

In each frame the window looks at the escape key, then at the entry field, the buttons and the value
fields, from top to bottom.  At the entry field it passes on the request for the keyboard focus and
forgets it; only then it looks at the Enter key, and the key counts only if the field has the focus.
-/

namespace FormulaCalc

open Window

/-- What a button does to a session. -/
def Button.press (table : VarTable) (s : Session) : Button → Session
  | clearEntry => s.clearEntry.askFocus
  | clearOutputs => s.clearOutputs.askFocus
  | reset => s.reset.askFocus
  | backspace => s.backspace.askFocus
  | evaluate => s.evaluate table
  | insert c => s.insert c
  | fold => s

namespace Window

/-- The letters with a button and a value field, in alphabetical order, with their slots. -/
def shownLetters (table : VarTable) : List (Char × Nat) :=
  table.entries.filter fun entry => entry.2 < variableCount

/-- The buttons from top to bottom. -/
def buttons (table : VarTable) : List Button :=
  [.clearEntry, .clearOutputs, .reset]
    ++ ['(', ')', '+', '-', '*', '/', '^'].map .insert
    ++ (shownLetters table).map (fun entry => .insert entry.1)
    ++ [.evaluate]
    ++ ['7', '8', '9'].map .insert ++ [.backspace]
    ++ ['4', '5', '6', '/', '1', '2', '3', '.', '0'].map .insert
    ++ [.fold]

/-- The texts of the window from top to bottom, apart from buttons and fields. -/
def texts (table : VarTable) (s : Session) : List String :=
  ["Calculatrice d’équations", "Entrée :", "", "", ""]
    ++ (if s.error.isEmpty then [] else [s.error])
    ++ ["Variables :"]
    ++ (shownLetters table).map (fun entry => entry.1.toString ++ " =")
    ++ ["Valeur :", if s.isAvailable then s.value else "indisponible",
      "Forme :", s.form,
      "Jetons :", s.steps.tokens,
      "Multiplications implicites :", s.steps.products,
      "Arbre :", s.steps.tree,
      "Note :", s.steps.note]

section Frames

variable (toolkit : Toolkit) (table : VarTable) (memory : toolkit.Memory)

/-- The escape key empties the entry. -/
def escapeKey (s : Session) : Gesture → Session
  | .key .escape => s.clearEntry
  | _ => s

/-- The entry field takes what is typed. -/
def entryField (s : Session) : Gesture → Session
  | .edit text => s.setEntry text
  | _ => s

/-- The request for the focus is passed on, and the Enter key evaluates if the field has the focus. -/
def enterKey (s : Session) (gesture : Gesture) : Session :=
  let focused := toolkit.hasFocus memory gesture s.wantsFocus
  if focused && gesture = .key .enter then s.drawn.evaluate table else s.drawn

/-- The button that is clicked does its work, if it is there. -/
def pressButton (s : Session) : Gesture → Session
  | .click button => if button ∈ buttons table then button.press table s else s
  | _ => s

/-- The value field that is set hands on its value, if it is there and reports a change. -/
def valueField (s : Session) : Gesture → Session
  | .adjust rank value =>
    match (shownLetters table)[rank]? with
    | some (_, slot) =>
      match s.values[slot]?.bind (toolkit.change? memory · value) with
      | some changed => s.setValue slot changed
      | none => s
    | none => s
  | _ => s

/-- The session after a frame. -/
def frame (s : Session) (gesture : Gesture) : Session :=
  let s := escapeKey s gesture
  let s := entryField s gesture
  let s := enterKey toolkit table memory s gesture
  let s := pressButton table s gesture
  valueField toolkit table memory s gesture

/-- A value field does nothing, or it gives the slot of its letter the value it reports. -/
theorem valueField_adjust (s : Session) (rank : Nat) (value : Binary64) :
    valueField toolkit table memory s (.adjust rank value) = s ∨
      ∃ letter slot shown changed,
        (shownLetters table)[rank]? = some (letter, slot) ∧
        s.values[slot]? = some shown ∧
        toolkit.change? memory shown value = some changed ∧
        valueField toolkit table memory s (.adjust rank value) = s.setValue slot changed := by
  simp only [valueField]
  split
  · next letter slot hletter =>
    split
    · next changed hchanged =>
      obtain ⟨shown, hshown, hchange⟩ := Option.bind_eq_some_iff.1 hchanged
      exact .inr ⟨letter, slot, shown, changed, hletter, hshown, hchange, rfl⟩
    · exact .inl rfl
  · exact .inl rfl

variable {toolkit table memory} (s : Session)

theorem frame_click (button : Button) :
    frame toolkit table memory s (.click button) =
      if button ∈ buttons table then button.press table s.drawn else s.drawn := by
  simp [frame, escapeKey, entryField, enterKey, pressButton, valueField]

theorem frame_escape : frame toolkit table memory s (.key .escape) = s.clearEntry.drawn := by
  simp [frame, escapeKey, entryField, enterKey, pressButton, valueField]

theorem frame_enter :
    frame toolkit table memory s (.key .enter) =
      if toolkit.hasFocus memory (.key .enter) s.wantsFocus then s.drawn.evaluate table
      else s.drawn := by
  simp [frame, escapeKey, entryField, enterKey, pressButton, valueField]

theorem frame_edit (text : List Char) :
    frame toolkit table memory s (.edit text) = (s.setEntry text).drawn := by
  simp [frame, escapeKey, entryField, enterKey, pressButton, valueField]

theorem frame_adjust (rank : Nat) (value : Binary64) :
    frame toolkit table memory s (.adjust rank value) =
      valueField toolkit table memory s.drawn (.adjust rank value) := by
  simp [frame, escapeKey, entryField, enterKey, pressButton]

theorem frame_look : frame toolkit table memory s .look = s.drawn := by
  simp [frame, escapeKey, entryField, enterKey, pressButton, valueField]

end Frames

end Window

/-- A session at a window that a toolkit draws, together with the shared registry. -/
structure Calculator (toolkit : Toolkit) where
  session : Session
  registry : Registry
  memory : toolkit.Memory

namespace Calculator

variable {toolkit : Toolkit}

/-- A new session with a fresh registry, before the first frame. -/
def initial (toolkit : Toolkit) : Calculator toolkit :=
  ⟨.initial, .initial, toolkit.start⟩

/-- What can happen to a calculator, at its window and behind it. -/
inductive Action where
  /-- The window is drawn once, while the user makes this gesture. -/
  | frame (gesture : Gesture)
  | register (letter : Char) (slot : Nat)
  | forget (letter : Char)
  | setEntry (text : List Char)
  | setValue (slot : Nat) (value : Binary64)
  | reset
  | clearEntry
  | backspace
  | clearOutputs
  | fail (message : String)
  | present (value form : String) (steps : Equation.Steps)

/-- Applies an operation to the session. -/
def onSession (c : Calculator toolkit) (f : Session → Session) : Calculator toolkit :=
  { c with session := f c.session }

/-- The calculator after an action. -/
def after (c : Calculator toolkit) : Action → Calculator toolkit
  | .frame gesture =>
    { c with
      session := Window.frame toolkit c.registry.table c.memory c.session gesture
      memory := toolkit.next c.memory c.session gesture }
  | .register letter slot => { c with registry := (c.registry.register letter slot).2 }
  | .forget letter => { c with registry := (c.registry.forget letter).2 }
  | .setEntry text => c.onSession (·.setEntry text)
  | .setValue slot value => c.onSession (·.setValue slot value)
  | .reset => c.onSession Session.reset
  | .clearEntry => c.onSession Session.clearEntry
  | .backspace => c.onSession Session.backspace
  | .clearOutputs => c.onSession Session.clearOutputs
  | .fail message => c.onSession (·.fail message)
  | .present value form steps => c.onSession (·.present value form steps)

/-- The calculator after a run of actions. -/
def run (c : Calculator toolkit) (actions : List Action) : Calculator toolkit :=
  actions.foldl after c

end Calculator

end FormulaCalc
