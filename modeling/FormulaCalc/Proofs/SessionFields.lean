import FormulaCalc.Proofs.Evaluations
/-!
# The fields of a session

A session could hold an error message beside a result, the texts of a result that is gone, or a
value that is not finite.  No run of actions leads to such a session, under any toolkit, and every
other session is what some run leads to (`exists_run_iff_consistent`).

The outputs go together because they are always those of one outcome.  For the values, each action
keeps them, starts over, or sets one of them to a finite value (`valueStep_after`).  The other
direction is a run that sets the values one by one and then puts the outputs and the entry in place.
-/

namespace FormulaCalc

/-- Whether no value is infinite or NaN. -/
def AllFinite (values : Vector Binary64 variableCount) : Prop :=
  ∀ slot (h : slot < variableCount), values[slot].isFinite

/--
Whether the fields of a session go together: all values are finite, no error message stands beside a
result, and without a result none of its texts is left.
-/
structure Session.Consistent (s : Session) : Prop where
  finite : AllFinite s.values
  error_eq : s.isAvailable = true → s.error = ""
  texts_eq : s.isAvailable = false → s.value = "" ∧ s.form = "" ∧ s.steps = .blank

section Values

/-- What an action can do to the values. -/
inductive ValueStep (values : Vector Binary64 variableCount) :
    Vector Binary64 variableCount → Prop
  | keep :
      ValueStep values values
  | reset :
      ValueStep values startValues
  | set {value : Binary64} (slot : Nat) :
      value.isFinite →
      ValueStep values (values.setIfInBounds slot value)

theorem allFinite_startValues :
    AllFinite startValues := by
  intro slot hslot
  simp [startValues, Binary64.zero, Binary64.isFinite, Binary64.infinityMagnitude]

theorem ValueStep.allFinite
    {values values' : Vector Binary64 variableCount}
    (h : ValueStep values values')
    (hfinite : AllFinite values) :
    AllFinite values' := by
  cases h with
  | keep =>
      exact hfinite
  | reset =>
      exact allFinite_startValues
  | set changed hvalue =>
      intro slot hslot
      rw [Vector.getElem_setIfInBounds]
      split
      · exact hvalue
      · exact hfinite slot hslot

theorem values_setValue
    {value : Binary64}
    (s : Session) (slot : Nat)
    (h : value.isFinite) :
    (s.setValue slot value).values = s.values.setIfInBounds slot value := by
  exact if_pos h

theorem valueStep_setValue
    (s : Session) (slot : Nat) (value : Binary64) :
    ValueStep s.values (s.setValue slot value).values := by
  rw [Session.setValue]
  dsimp only
  split
  · next hfinite =>
      exact .set slot hfinite
  · exact .keep

theorem valueStep_evaluate
    (table : VarTable) (s : Session) :
    ValueStep s.values (s.evaluate table).values := by
  rw [Session.evaluate_eq]
  exact .keep

theorem valueStep_press
    (table : VarTable) (s : Session) (b : Button) :
    ValueStep s.values (b.press table s).values := by
  cases b with
  | reset =>
      exact .reset
  | evaluate =>
      exact valueStep_evaluate table s
  | clearEntry | clearOutputs | backspace | insert | fold =>
      exact .keep

theorem valueStep_frame
    {toolkit : Toolkit}
    (table : VarTable) (memory : toolkit.Memory) (s : Session) (gesture : Window.Gesture) :
    ValueStep s.values (Window.frame toolkit table memory s gesture).values := by
  cases gesture with
  | click b =>
      rw [Window.frame_click]
      split
      · exact valueStep_press table s.drawn b
      · exact .keep
  | key key =>
      cases key with
      | escape =>
          rw [Window.frame_escape]
          exact .keep
      | enter =>
          rw [Window.frame_enter]
          split
          · exact valueStep_evaluate table s.drawn
          · exact .keep
  | edit text =>
      rw [Window.frame_edit]
      exact .keep
  | adjust rank value =>
      rw [Window.frame_adjust]
      rcases Window.valueField_adjust toolkit table memory s.drawn rank value with
        h | ⟨letter, slot, shown, changed, -, -, -, h⟩
      · rw [h]
        exact .keep
      · rw [h]
        exact valueStep_setValue s.drawn slot changed
  | look =>
      rw [Window.frame_look]
      exact .keep

end Values

namespace Calculator

variable {toolkit : Toolkit}

/-- **An action keeps the values, starts over, or sets one of them to a finite value.** -/
theorem valueStep_after
    (c : Calculator toolkit) (a : Action) :
    ValueStep c.session.values (c.after a).session.values := by
  cases a with
  | frame gesture =>
      exact valueStep_frame c.registry.table c.memory c.session gesture
  | setValue slot value =>
      exact valueStep_setValue c.session slot value
  | reset =>
      exact .reset
  | register | forget | setEntry | clearEntry | backspace | clearOutputs | fail | present =>
      exact .keep

theorem allFinite_run
    {c : Calculator toolkit}
    (h : AllFinite c.session.values)
    (actions : List Action) :
    AllFinite (c.run actions).session.values := by
  induction actions generalizing c with
  | nil =>
      exact h
  | cons a actions ih =>
      exact ih ((valueStep_after c a).allFinite h)

theorem run_append
    (c : Calculator toolkit) (actions more : List Action) :
    c.run (actions ++ more) = (c.run actions).run more := by
  exact List.foldl_append

/-- Sets the values of all slots below a bound. -/
def setValues (values : Vector Binary64 variableCount) (bound : Nat) : List Action :=
  (List.range bound).map fun slot => .setValue slot (values[slot]?.getD .zero)

theorem session_run_setValues_succ
    {values : Vector Binary64 variableCount} {bound : Nat}
    (c : Calculator toolkit)
    (hbound : bound < variableCount) :
    (c.run (setValues values (bound + 1))).session =
      (c.run (setValues values bound)).session.setValue bound values[bound] := by
  have hvalue : values[bound]?.getD .zero = values[bound] := by
    rw [Vector.getElem?_eq_getElem hbound, Option.getD_some]
  rw [setValues, List.range_succ, List.map_append, run_append, ← hvalue]
  rfl

theorem getElem_run_setValues
    {values : Vector Binary64 variableCount} {slot : Nat}
    (c : Calculator toolkit)
    (hfinite : AllFinite values)
    (hslot : slot < variableCount)
    (bound : Nat)
    (hbound : bound ≤ variableCount) :
    (c.run (setValues values bound)).session.values[slot] =
      if slot < bound then values[slot] else c.session.values[slot] := by
  induction bound with
  | zero =>
      simp [setValues, run]
  | succ bound ih =>
      -- the last action sets the slot at the bound, and no other
      rw [session_run_setValues_succ c hbound, values_setValue _ _ (hfinite bound hbound),
        Vector.getElem_setIfInBounds, ih (Nat.le_of_succ_le hbound)]
      by_cases heq : bound = slot
      · simp [heq]
      · have hlt : slot < bound + 1 ↔ slot < bound := by
          omega
        simp [heq, hlt]

theorem values_run_setValues
    {values : Vector Binary64 variableCount}
    (c : Calculator toolkit)
    (hfinite : AllFinite values) :
    (c.run (setValues values variableCount)).session.values = values := by
  refine Vector.ext fun slot hslot => ?_
  rw [getElem_run_setValues c hfinite hslot variableCount (Nat.le_refl _), if_pos hslot]

end Calculator

namespace Session

open Calculator

/-- The action that puts the outputs of a session in place, if they are consistent. -/
def showing (s : Session) : Action :=
  if s.isAvailable then .present s.value s.form s.steps else .fail s.error

/-- A run that leads to a session, if it is consistent. -/
def actions (s : Session) : List Action :=
  setValues s.values variableCount ++ [s.showing, .setEntry s.entry]
    ++ if s.wantsFocus then [] else [.frame .look]

variable {toolkit : Toolkit} {s : Session}

theorem session_after_showing
    (c : Calculator toolkit)
    (h : s.Consistent) :
    ((c.after s.showing).after (.setEntry s.entry)).session =
      { s with values := c.session.values, wantsFocus := true } := by
  obtain ⟨⟨value, form, error, isAvailable, steps⟩, entry, values, wantsFocus⟩ := s
  cases isAvailable with
  | true =>
      obtain rfl : error = "" := h.error_eq rfl
      rfl
  | false =>
      obtain ⟨rfl, rfl, rfl⟩ : value = "" ∧ form = "" ∧ steps = .blank := h.texts_eq rfl
      rfl

theorem session_run_actions
    (c : Calculator toolkit)
    (h : s.Consistent) :
    (c.run s.actions).session = s := by
  have hshown := session_after_showing (c.run (setValues s.values variableCount)) h
  rw [values_run_setValues c h.finite] at hshown
  rw [actions, run_append, run_append]
  cases hfocus : s.wantsFocus with
  | true =>
      rw [← hfocus] at hshown
      exact hshown
  | false =>
      have hdrawn := congrArg Session.drawn hshown
      refine (Window.frame_look _).trans (hdrawn.trans ?_)
      rw [drawn, ← hfocus]

/-- **A session with finite values that shows an outcome is consistent.** -/
theorem consistent_of_outcome
    {outcome : Outcome}
    (hfinite : AllFinite s.values)
    (hshows : s.toOutputs = outcome.outputs) :
    s.Consistent := by
  obtain ⟨herror, htexts⟩ := Outputs.exists_outcome_iff.1 ⟨outcome, hshows⟩
  exact ⟨hfinite, herror, htexts⟩

end Session

/--
From a new session, with any registry and under any toolkit, runs of actions lead to those sessions
whose values are all finite, which have no error message beside a result, and which without a result
have no text but the error message.
-/
theorem exists_run_iff_consistent
    (toolkit : Toolkit) (registry : Registry) (memory : toolkit.Memory) (s : Session) :
    (∃ actions, ((⟨.initial, registry, memory⟩ : Calculator toolkit).run actions).session = s) ↔
      s.Consistent := by
  constructor
  · rintro ⟨actions, rfl⟩
    have hstart : Session.initial.toOutputs = Outcome.blank.outputs := rfl
    exact Session.consistent_of_outcome (Calculator.allFinite_run allFinite_startValues actions)
      (Calculator.toOutputs_run hstart actions)
  · intro h
    exact ⟨s.actions, Session.session_run_actions _ h⟩

end FormulaCalc
