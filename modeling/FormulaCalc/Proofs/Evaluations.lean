import FormulaCalc.Proofs.Outcomes
import FormulaCalc.Session.Window
/-!
# Outcomes and their evaluations

What a calculator shows belongs to the last evaluation: along every run of actions, under any
toolkit, the outputs are a function of the entry, the table and the values as they were at that
evaluation, and there are none if nothing has been evaluated since the start or since the outputs
were last cleared (`outcome_of_last_evaluation`).

One action writes all outputs or none of them (`toOutputs_after`): so what a session holds field by
field follows an outcome that is replaced as a whole (`toOutputs_run`).  A run is cut at its last
action that evaluates or clears, and what comes behind leaves the outputs alone.
-/

namespace FormulaCalc

namespace Window

variable {toolkit : Toolkit} {table : VarTable} {memory : toolkit.Memory}

theorem evaluate_mem_buttons
    (table : VarTable) :
    .evaluate ∈ buttons table := by
  simp [buttons]

/-- What a button does to the outputs. -/
theorem toOutputs_press
    (table : VarTable) (s : Session) (b : Button) :
    (b.press table s).toOutputs =
      if b = .evaluate then (s.inputs table).outcome.outputs
      else if b = .clearOutputs ∨ b = .reset then Outcome.blank.outputs
      else s.toOutputs := by
  cases b with
  | evaluate =>
      exact s.toOutputs_evaluate table
  | clearEntry | clearOutputs | reset | backspace | insert | fold =>
      rfl

/-- What a click does to the outputs; the buttons that change them are always there. -/
theorem toOutputs_click
    (s : Session) (b : Button) :
    (frame toolkit table memory s (.click b)).toOutputs =
      if b = .evaluate then (s.inputs table).outcome.outputs
      else if b = .clearOutputs ∨ b = .reset then Outcome.blank.outputs
      else s.toOutputs := by
  rw [frame_click]
  by_cases hb : b ∈ buttons table
  · rw [if_pos hb]
    exact toOutputs_press table s.drawn b
  · have hne : b ≠ .evaluate ∧ ¬ (b = .clearOutputs ∨ b = .reset) := by
      refine ⟨?_, ?_⟩
      · rintro rfl
        exact hb (evaluate_mem_buttons table)
      · rintro (rfl | rfl) <;> simp [buttons] at hb
    rw [if_neg hb, if_neg hne.1, if_neg hne.2]
    rfl

/-- The Enter key evaluates only if the entry field has the focus. -/
theorem toOutputs_enter
    (s : Session) :
    (frame toolkit table memory s (.key .enter)).toOutputs =
      if toolkit.hasFocus memory (.key .enter) s.wantsFocus then (s.inputs table).outcome.outputs
      else s.toOutputs := by
  rw [frame_enter]
  split
  · exact s.drawn.toOutputs_evaluate table
  · rfl

/-- A value field leaves the outputs as they are, whether it is there or not. -/
theorem toOutputs_adjust
    (s : Session) (rank : Nat) (value : Binary64) :
    (frame toolkit table memory s (.adjust rank value)).toOutputs = s.toOutputs := by
  rw [frame_adjust]
  rcases valueField_adjust toolkit table memory s.drawn rank value with
    h | ⟨letter, slot, shown, changed, -, -, -, h⟩
  · rw [h]
    rfl
  · rw [h]
    rfl

end Window

namespace Calculator

variable {toolkit : Toolkit}

/-- What an evaluation would read now. -/
def inputs (c : Calculator toolkit) : Inputs :=
  c.session.inputs c.registry.table

/--
Whether an action evaluates the entry: a click on the button for it, or the Enter key while the
entry field has the focus.
-/
def evaluates (c : Calculator toolkit) : Action → Bool
  | .frame (.click b) => b = .evaluate
  | .frame (.key .enter) => toolkit.hasFocus c.memory (.key .enter) c.session.wantsFocus
  | _ => false

/-- Whether an action clears the outputs. -/
def Action.clears : Action → Bool
  | .frame (.click b) => b = .clearOutputs ∨ b = .reset
  | .reset | .clearOutputs => true
  | _ => false

/-- The outcome that an action puts in place although no evaluation has made it. -/
def Action.imposed? : Action → Option Outcome
  | .fail message => some (.failed message)
  | .present value form steps => some (.shown value form steps)
  | _ => none

/-- The outcome that an action puts in place, if there is one. -/
def outcome? (c : Calculator toolkit) (a : Action) : Option Outcome :=
  if c.evaluates a then some c.inputs.outcome
  else if a.clears then some .blank
  else a.imposed?

section Steps

variable {c : Calculator toolkit} {a : Action}

theorem session_after_frame
    (c : Calculator toolkit) (gesture : Window.Gesture) :
    (c.after (.frame gesture)).session =
      Window.frame toolkit c.registry.table c.memory c.session gesture := by
  rfl

theorem evaluates_eq_false_of_clears
    (h : a.clears = true) :
    c.evaluates a = false := by
  unfold Action.clears at h
  split at h
  · refine decide_eq_false ?_
    rcases of_decide_eq_true h with rfl | rfl <;> decide
  · rfl
  · rfl
  · cases h

/-- The outputs of the outcome in place after an action. -/
theorem getD_outcome?
    (h : a.imposed? = none) (o : Outputs) :
    ((c.outcome? a).map Outcome.outputs).getD o =
      if c.evaluates a then c.inputs.outcome.outputs
      else if a.clears then Outcome.blank.outputs
      else o := by
  rw [outcome?, h]
  split
  · rfl
  · split <;> rfl

/-- **One action writes the outputs of one outcome, all of them, or leaves them as they are.** -/
theorem toOutputs_after
    (c : Calculator toolkit) (a : Action) :
    (c.after a).session.toOutputs =
      ((c.outcome? a).map Outcome.outputs).getD c.session.toOutputs := by
  cases a with
  | frame gesture =>
      rw [getD_outcome? rfl]
      cases gesture with
      | click b =>
          simp only [evaluates, Action.clears, decide_eq_true_eq]
          exact Window.toOutputs_click c.session b
      | key key =>
          cases key with
          | escape =>
              rw [session_after_frame, Window.frame_escape]
              rfl
          | enter =>
              exact Window.toOutputs_enter c.session
      | edit text =>
          rw [session_after_frame, Window.frame_edit]
          rfl
      | adjust rank value =>
          exact Window.toOutputs_adjust c.session rank value
      | look =>
          rw [session_after_frame, Window.frame_look]
          rfl
  | fail message =>
      exact c.session.toOutputs_fail message
  | present value form steps =>
      exact c.session.toOutputs_present value form steps
  | reset | clearOutputs =>
      exact c.session.toOutputs_clearOutputs
  | register | forget | setEntry | setValue | clearEntry | backspace =>
      rfl

end Steps

/-- The outcome in place after a run, given the one in place before it. -/
def outcomeAfter (c : Calculator toolkit) (outcome : Outcome) : List Action → Outcome
  | [] => outcome
  | a :: actions => (c.after a).outcomeAfter ((c.outcome? a).getD outcome) actions

/-- **The five outputs follow an outcome that is replaced as a whole, along every run.** -/
theorem toOutputs_run
    {c : Calculator toolkit} {outcome : Outcome}
    (h : c.session.toOutputs = outcome.outputs)
    (actions : List Action) :
    (c.run actions).session.toOutputs = (c.outcomeAfter outcome actions).outputs := by
  induction actions generalizing c outcome with
  | nil =>
      exact h
  | cons a actions ih =>
      refine ih ?_
      rw [toOutputs_after, h]
      cases c.outcome? a <;> rfl

/-- Whether no action of a run evaluates or clears the outputs. -/
def LeavesOutputs (c : Calculator toolkit) : List Action → Prop
  | [] => True
  | a :: actions =>
      c.evaluates a = false ∧ a.clears = false ∧ (c.after a).LeavesOutputs actions

/-- Whether nothing has been evaluated since the start, or since the outputs were cleared. -/
def NothingEvaluated (start : Calculator toolkit) (actions : List Action) : Prop :=
  start.LeavesOutputs actions ∨
    ∃ before a since,
      actions = before ++ a :: since ∧
      a.clears = true ∧
      ((start.run before).after a).LeavesOutputs since

/-- Whether the last evaluation read these inputs, and its outputs have not been cleared. -/
def LastEvaluated (start : Calculator toolkit) (actions : List Action) (inputs : Inputs) : Prop :=
  ∃ before a since,
    actions = before ++ a :: since ∧
    (start.run before).evaluates a = true ∧
    (start.run before).inputs = inputs ∧
    ((start.run before).after a).LeavesOutputs since

section Runs

variable {start : Calculator toolkit} {actions : List Action}

theorem run_append_cons
    (start : Calculator toolkit) (before : List Action) (a : Action) (since : List Action) :
    start.run (before ++ a :: since) = ((start.run before).after a).run since := by
  rw [run, List.foldl_append, List.foldl_cons]
  rfl

/-- **A run without evaluation and without clearing keeps the outputs.** -/
theorem toOutputs_run_of_leaves
    (hactions : ∀ a ∈ actions, a.imposed? = none)
    (h : start.LeavesOutputs actions) :
    (start.run actions).session.toOutputs = start.session.toOutputs := by
  induction actions generalizing start with
  | nil =>
      rfl
  | cons a actions ih =>
      obtain ⟨hevaluates, hclears, hrest⟩ := h
      obtain ⟨ha, hactions⟩ := List.forall_mem_cons.1 hactions
      have hstep := start.toOutputs_after a
      rw [getD_outcome? ha, hevaluates, hclears] at hstep
      exact (ih hactions hrest).trans hstep

/-- What comes behind the last evaluation or clearing of a run does not change the outputs. -/
theorem toOutputs_run_append_cons
    {before since : List Action} {a : Action}
    (hactions : ∀ a' ∈ before ++ a :: since, a'.imposed? = none)
    (h : ((start.run before).after a).LeavesOutputs since) :
    (start.run (before ++ a :: since)).session.toOutputs =
      if (start.run before).evaluates a then (start.run before).inputs.outcome.outputs
      else if a.clears then Outcome.blank.outputs
      else (start.run before).session.toOutputs := by
  obtain ⟨ha, hsince⟩ := List.forall_mem_cons.1 (List.forall_mem_append.1 hactions).2
  rw [run_append_cons, toOutputs_run_of_leaves hsince h, toOutputs_after, getD_outcome? ha]

theorem toOutputs_of_nothingEvaluated
    (hstart : start.session.toOutputs = Outcome.blank.outputs)
    (hactions : ∀ a ∈ actions, a.imposed? = none)
    (h : start.NothingEvaluated actions) :
    (start.run actions).session.toOutputs = Outcome.blank.outputs := by
  rcases h with hleaves | ⟨before, a, since, rfl, hclears, hleaves⟩
  · rw [toOutputs_run_of_leaves hactions hleaves, hstart]
  · rw [toOutputs_run_append_cons hactions hleaves, evaluates_eq_false_of_clears hclears, hclears]
    rfl

theorem toOutputs_of_lastEvaluated
    {inputs : Inputs}
    (hactions : ∀ a ∈ actions, a.imposed? = none)
    (h : start.LastEvaluated actions inputs) :
    (start.run actions).session.toOutputs = inputs.outcome.outputs := by
  obtain ⟨before, a, since, rfl, hevaluates, rfl, hleaves⟩ := h
  rw [toOutputs_run_append_cons hactions hleaves, if_pos hevaluates]

theorem LastEvaluated.cons
    {a : Action} {inputs : Inputs}
    (h : (start.after a).LastEvaluated actions inputs) :
    start.LastEvaluated (a :: actions) inputs := by
  obtain ⟨before, b, since, rfl, hrest⟩ := h
  exact ⟨a :: before, b, since, rfl, hrest⟩

/-- Every run has a last evaluation whose outputs stand, or none. -/
theorem nothingEvaluated_or_lastEvaluated
    (start : Calculator toolkit) (actions : List Action) :
    start.NothingEvaluated actions ∨ ∃ inputs, start.LastEvaluated actions inputs := by
  induction actions generalizing start with
  | nil =>
      exact .inl (.inl trivial)
  | cons a actions ih =>
      rcases ih (start.after a) with (hleaves | ⟨before, b, since, rfl, hrest⟩) | ⟨inputs, hlast⟩
      · -- nothing happens behind the first action, so it decides
        cases hevaluates : start.evaluates a with
        | true =>
            exact .inr ⟨_, [], a, actions, rfl, hevaluates, rfl, hleaves⟩
        | false =>
            cases hclears : a.clears with
            | true =>
                exact .inl (.inr ⟨[], a, actions, rfl, hclears, hleaves⟩)
            | false =>
                exact .inl (.inl ⟨hevaluates, hclears, hleaves⟩)
      · exact .inl (.inr ⟨a :: before, b, since, rfl, hrest⟩)
      · exact .inr ⟨inputs, hlast.cons⟩

end Runs

/-- How the outputs after a run belong to the last evaluation in it. -/
structure ShowsLastEvaluation (start : Calculator toolkit) (actions : List Action) : Prop where
  nothing_iff :
    start.NothingEvaluated actions ↔ ¬ ∃ inputs, start.LastEvaluated actions inputs
  blank :
    start.NothingEvaluated actions → (start.run actions).session.toOutputs.HasForm .blank
  /-- The outputs are a function of what the last evaluation read. -/
  last : ∀ inputs, start.LastEvaluated actions inputs →
    (start.run actions).session.toOutputs = inputs.outcome.outputs ∧
      (inputs.outcome.outputs.HasForm .error ∨ inputs.outcome.outputs.HasForm .result)
  /-- If it read a text with an expression, they are the result of that expression. -/
  result : ∀ inputs e, start.LastEvaluated actions inputs →
    Equation.parse? inputs.table inputs.text = some e →
      (start.run actions).session.toOutputs = (inputs.result e).outputs ∧
        (inputs.result e).outputs.HasForm .result
  error : ∀ inputs, start.LastEvaluated actions inputs →
    Equation.parse? inputs.table inputs.text = none →
      (start.run actions).session.toOutputs = (Outcome.failed inputs.refusal.message).outputs ∧
        (start.run actions).session.toOutputs.HasForm .error
  form : ∃ form, (start.run actions).session.toOutputs.HasForm form ∧
    ∀ form', (start.run actions).session.toOutputs.HasForm form' → form' = form

/--
Along a run that starts with nothing to show, and in which all outputs are made by evaluations,
nothing is shown as long as nothing has been evaluated since the start or since the outputs were
last cleared; otherwise the outputs are those of the last evaluation, a function of the entry, the
table and the values at that time: the result of the expression if the entry had one, an error
message if it had none.  The outputs have exactly one of three forms.
-/
theorem outcome_of_last_evaluation
    (start : Calculator toolkit) (actions : List Action)
    (hstart : start.session.toOutputs = Outcome.blank.outputs)
    (hactions : ∀ a ∈ actions, a.imposed? = none) :
    start.ShowsLastEvaluation actions := by
  have hblank (h : start.NothingEvaluated actions) :
      (start.run actions).session.toOutputs.HasForm .blank := by
    rw [toOutputs_of_nothingEvaluated hstart hactions h]
    exact ⟨rfl, rfl, rfl, rfl, rfl⟩
  have hlast (inputs : Inputs) (h : start.LastEvaluated actions inputs) :
      (start.run actions).session.toOutputs = inputs.outcome.outputs ∧
        (inputs.outcome.outputs.HasForm .error ∨ inputs.outcome.outputs.HasForm .result) :=
    ⟨toOutputs_of_lastEvaluated hactions h, inputs.hasForm_outcome⟩
  have hcases := nothingEvaluated_or_lastEvaluated start actions
  constructor
  case nothing_iff =>
    refine ⟨?_, hcases.resolve_right⟩
    rintro hnothing ⟨inputs, h⟩
    have hform := hblank hnothing
    obtain ⟨heq, hinputs⟩ := hlast inputs h
    rw [heq] at hform
    rcases hinputs with herror | hresult
    · cases hform.unique herror
    · cases hform.unique hresult
  case blank =>
    exact hblank
  case last =>
    exact hlast
  case result =>
    intro inputs e h hparse
    obtain ⟨heq, hresult⟩ := Inputs.outcome_of_parse hparse
    exact ⟨(hlast inputs h).1.trans (congrArg Outcome.outputs heq), hresult⟩
  case error =>
    intro inputs h hparse
    obtain ⟨heq, herror⟩ := Inputs.outcome_of_parse_none hparse
    rw [(hlast inputs h).1]
    exact ⟨congrArg Outcome.outputs heq, herror⟩
  case form =>
    obtain ⟨form, hform⟩ :
        ∃ form, (start.run actions).session.toOutputs.HasForm form := by
      rcases hcases with hnothing | ⟨inputs, h⟩
      · exact ⟨_, hblank hnothing⟩
      · obtain ⟨heq, hinputs⟩ := hlast inputs h
        rw [heq]
        exact hinputs.elim (⟨_, ·⟩) (⟨_, ·⟩)
    exact ⟨form, hform, fun form' hform' => hform'.unique hform⟩

/--
The outputs of `2x` stand although `x` is no letter any more, the entry is another one by now, and
the letter `C`, registered since, has been put into it.
-/
theorem outcome_after_forgetting_x :
    let actions : List Action :=
      [.frame (.edit [' ', '2', 'x']), .frame (.click .evaluate), .forget 'x',
        .frame (.key .escape), .frame .look, .frame (.key .enter), .register 'C' 0,
        .frame (.click (.insert 'C'))]
    ((initial .standard).run actions).session.entry = ['C'] ∧
      ((initial .standard).run actions).session.toOutputs =
        (Inputs.outcome ⟨['2', 'x'], .initial, startValues⟩).outputs := by
  intro actions
  have hshows : (initial .standard).ShowsLastEvaluation actions :=
    outcome_of_last_evaluation (initial .standard) actions rfl (by simp [actions, Action.imposed?])
  refine ⟨by decide +kernel, (hshows.last _ ?_).1⟩
  refine ⟨[.frame (.edit [' ', '2', 'x'])], .frame (.click .evaluate), _, rfl, ?_, ?_, ?_⟩
  · decide
  · rfl
  · simp only [LeavesOutputs]
    refine ⟨rfl, rfl, rfl, rfl, rfl, rfl, ?_, rfl, rfl, rfl, rfl, rfl, trivial⟩
    decide +kernel

end Calculator

end FormulaCalc
