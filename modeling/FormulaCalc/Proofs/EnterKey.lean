import FormulaCalc.Proofs.SessionFields
/-!
# The Enter key

The toolkit takes the focus from the entry field in the frame in which the Enter key is pressed
(`Toolkit.YieldsFocus`), so the key evaluates the entry only if the window has just requested the
focus.  Every frame passes the request on and forgets it.  So the key does what the button `=` does
in just two cases: if the request still stands, or if the evaluation would leave the outputs as they
are (`enter_agrees_iff`).

A click that puts a character into the entry makes the request, and the next frame uses it up.  In
this very frame the key evaluates; as soon as a frame has been drawn in between it does nothing,
although the field has the focus by then (`enter_after_insert`).
-/

namespace FormulaCalc

/-- Whether two sessions have the same entry and values, and show the same. -/
def Session.Agrees (s s' : Session) : Prop :=
  s.entry = s'.entry ∧ s.values = s'.values ∧ s.toOutputs = s'.toOutputs

theorem Inputs.outcome_ne_blank
    (inputs : Inputs) :
    inputs.outcome.outputs ≠ Outcome.blank.outputs := by
  intro h
  have hform := inputs.hasForm_outcome
  rw [h] at hform
  rcases hform with herror | hresult
  · exact herror.1 rfl
  · cases hresult.2.1

namespace Calculator

/-- A frame in which the Enter key is pressed. -/
def Action.enter : Action := .frame (.key .enter)

/-- A frame in which the button `=` is clicked. -/
def Action.equals : Action := .frame (.click .evaluate)

/-- A frame in which a button is clicked, and frames behind it in which nothing happens. -/
def Action.click (b : Button) (idle : Nat) : List Action :=
  .frame (.click b) :: List.replicate idle (.frame .look)

variable {toolkit : Toolkit}

section Keys

theorem session_after_equals
    (c : Calculator toolkit) :
    (c.after .equals).session = c.session.drawn.evaluate c.registry.table := by
  refine (Window.frame_click c.session .evaluate).trans ?_
  exact if_pos (Window.evaluate_mem_buttons c.registry.table)

/-- The button `=` shows the outcome of the entry, and keeps the entry and the values. -/
theorem after_equals
    (c : Calculator toolkit) :
    (c.after .equals).session.entry = c.session.entry ∧
      (c.after .equals).session.values = c.session.values ∧
      (c.after .equals).session.toOutputs = c.inputs.outcome.outputs := by
  rw [session_after_equals, Session.evaluate_eq]
  exact ⟨rfl, rfl, rfl⟩

theorem session_after_enter
    (hfocus : toolkit.YieldsFocus)
    (c : Calculator toolkit) :
    (c.after .enter).session =
      if c.session.wantsFocus then (c.after .equals).session else c.session.drawn := by
  rw [session_after_equals]
  refine (Window.frame_enter c.session).trans ?_
  rw [hfocus]

/-- **Without the request for the focus the Enter key does nothing.** -/
theorem session_after_enter_of_not_wantsFocus
    {c : Calculator toolkit}
    (hfocus : toolkit.YieldsFocus)
    (h : c.session.wantsFocus = false) :
    (c.after .enter).session = c.session := by
  rw [session_after_enter hfocus, h, if_neg Bool.false_ne_true, Session.drawn, ← h]

/-- The Enter key does what `=` does with the request, or where an evaluation changes nothing. -/
theorem enter_agrees_iff
    (hfocus : toolkit.YieldsFocus)
    (c : Calculator toolkit) :
    (c.after .enter).session.Agrees (c.after .equals).session ↔
      c.session.wantsFocus = true ∨ c.session.toOutputs = c.inputs.outcome.outputs := by
  obtain ⟨hentry, hvalues, houtputs⟩ := after_equals c
  cases hwants : c.session.wantsFocus with
  | true =>
      rw [session_after_enter hfocus, hwants, if_pos rfl]
      simp [Session.Agrees]
  | false =>
      rw [session_after_enter_of_not_wantsFocus hfocus hwants, Session.Agrees, hentry, hvalues,
        houtputs]
      simp

end Keys

section Idle

/-- Frames in which nothing happens use up the request for the focus, and leave all else alone. -/
theorem session_run_idle
    (c : Calculator toolkit) (idle : Nat) :
    (c.run (List.replicate idle (.frame .look))).session =
      if idle = 0 then c.session else c.session.drawn := by
  induction idle generalizing c with
  | zero =>
      rfl
  | succ idle ih =>
      have hlook : (c.after (.frame .look)).session = c.session.drawn :=
        Window.frame_look c.session
      have hrun : c.run (List.replicate (idle + 1) (.frame .look)) =
          (c.after (.frame .look)).run (List.replicate idle (.frame .look)) := rfl
      rw [hrun, ih, hlook, if_neg (Nat.succ_ne_zero idle)]
      split <;> rfl

theorem registry_run_idle
    (c : Calculator toolkit) (idle : Nat) :
    (c.run (List.replicate idle (.frame .look))).registry = c.registry := by
  induction idle generalizing c with
  | zero =>
      rfl
  | succ idle ih =>
      exact ih (c.after (.frame .look))

/-- The session behind a click on a button that is there. -/
theorem session_run_click
    {c : Calculator toolkit} {b : Button}
    (h : b ∈ Window.buttons c.registry.table)
    (idle : Nat) :
    (c.run (Action.click b idle)).session =
      if idle = 0 then b.press c.registry.table c.session.drawn
      else (b.press c.registry.table c.session.drawn).drawn := by
  have hclick : (c.after (.frame (.click b))).session =
      b.press c.registry.table c.session.drawn :=
    (Window.frame_click c.session b).trans (if_pos h)
  have hrun := session_run_idle (c.after (.frame (.click b))) idle
  rw [hclick] at hrun
  exact hrun

theorem registry_run_click
    (c : Calculator toolkit) (b : Button) (idle : Nat) :
    (c.run (Action.click b idle)).registry = c.registry := by
  exact registry_run_idle (c.after (.frame (.click b))) idle

end Idle

/--
How the Enter key compares with the button `=` in a state that a click on the button of a character
and some idle frames have led to.
-/
structure EnterBehindInsert
    (before c : Calculator toolkit) (letter : Char) (idle : Nat) : Prop where
  entry_eq : c.session.entry = before.session.entry ++ [letter]
  values_eq : c.session.values = before.session.values
  toOutputs_eq : c.session.toOutputs = before.session.toOutputs
  /-- The button `=` evaluates in any case. -/
  equals_eq : (c.after .equals).session.entry = c.session.entry ∧
    (c.after .equals).session.values = c.session.values ∧
    (c.after .equals).session.toOutputs = c.inputs.outcome.outputs
  /-- In the next frame the key does exactly what the button does. -/
  enter_at_once : idle = 0 → (c.after .enter).session = (c.after .equals).session
  /-- In a later frame the key does nothing at all. -/
  enter_later : 0 < idle → (c.after .enter).session = c.session
  agrees_iff : (c.after .enter).session.Agrees (c.after .equals).session ↔
    idle = 0 ∨ before.session.toOutputs = c.inputs.outcome.outputs
  not_agrees : 0 < idle → before.session.toOutputs = Outcome.blank.outputs →
    ¬ (c.after .enter).session.Agrees (c.after .equals).session

/--
Behind a run that ends with a click on the button of a character, the Enter key does what `=` does
if it is pressed in the very next frame.  After one idle frame or more it does nothing: then the two
agree exactly if the outputs of the entry are those that were there before the click, and never if
nothing was shown.
-/
theorem enter_after_insert
    (hfocus : toolkit.YieldsFocus)
    (start : Calculator toolkit) (actions : List Action) (letter : Char) (idle : Nat)
    (hbutton : .insert letter ∈ Window.buttons (start.run actions).registry.table) :
    EnterBehindInsert (start.run actions)
      (start.run (actions ++ Action.click (.insert letter) idle)) letter idle := by
  rw [run_append]
  generalize start.run actions = before at hbutton ⊢
  have hsession := session_run_click hbutton idle
  generalize before.run (Action.click (.insert letter) idle) = c at hsession ⊢
  have hentry : c.session.entry = before.session.entry ++ [letter] := by
    rw [hsession]
    split <;> rfl
  have hvalues : c.session.values = before.session.values := by
    rw [hsession]
    split <;> rfl
  have houtputs : c.session.toOutputs = before.session.toOutputs := by
    rw [hsession]
    split <;> rfl
  have hwants : c.session.wantsFocus = true ↔ idle = 0 := by
    rw [hsession]
    split
    · next h =>
        exact iff_of_true rfl h
    · next h =>
        exact iff_of_false Bool.false_ne_true h
  have hagrees := enter_agrees_iff hfocus c
  rw [hwants, houtputs] at hagrees
  constructor
  case entry_eq =>
    exact hentry
  case values_eq =>
    exact hvalues
  case toOutputs_eq =>
    exact houtputs
  case equals_eq =>
    exact after_equals c
  case enter_at_once =>
    intro hidle
    rw [session_after_enter hfocus, if_pos (hwants.2 hidle)]
  case enter_later =>
    intro hidle
    refine session_after_enter_of_not_wantsFocus hfocus ?_
    rw [← Bool.not_eq_true, hwants]
    omega
  case agrees_iff =>
    exact hagrees
  case not_agrees =>
    intro hidle hblank
    rw [hagrees, hblank]
    rintro (hzero | heq)
    · omega
    · exact c.inputs.outcome_ne_blank heq.symm

/-- The button of a registered `C` is clicked while an older outcome is shown, and a frame passes. -/
theorem enter_after_inserting_C :
    Toolkit.standard.YieldsFocus ∧
      .insert 'C' ∈ Window.buttons ((initial .standard).run
        [.frame (.click (.insert '2')), .equals, .register 'C' 0]).registry.table ∧
      (((initial .standard).run
        ([.frame (.click (.insert '2')), .equals, .register 'C' 0] ++
          Action.click (.insert 'C') 1)).after .enter).session =
        ((initial .standard).run
          ([.frame (.click (.insert '2')), .equals, .register 'C' 0] ++
            Action.click (.insert 'C') 1)).session := by
  have hbutton : .insert 'C' ∈ Window.buttons ((initial .standard).run
      [.frame (.click (.insert '2')), .equals, .register 'C' 0]).registry.table := by
    decide +kernel
  refine ⟨Toolkit.yieldsFocus_standard, hbutton, ?_⟩
  exact (enter_after_insert Toolkit.yieldsFocus_standard _ _ 'C' 1 hbutton).enter_later Nat.one_pos

/-- A frame behind a click on `1` the Enter key shows nothing, and the button `=` shows the value. -/
theorem enter_after_one_ne :
    let c := (initial .standard).run (Action.click (.insert '1') 1)
    (c.after .enter).session.toOutputs = Outcome.blank.outputs ∧
      (c.after .equals).session.value = "1" ∧
      ¬ (c.after .enter).session.Agrees (c.after .equals).session := by
  intro c
  have henter : (c.after .enter).session.toOutputs = Outcome.blank.outputs := by
    decide +kernel
  have hequals : (c.after .equals).session.value = "1" := by
    decide +kernel
  refine ⟨henter, hequals, fun hagrees => ?_⟩
  have hvalue := congrArg Outputs.value (henter.symm.trans hagrees.2.2)
  rw [hequals] at hvalue
  exact absurd hvalue (by decide)

end Calculator

end FormulaCalc
