import FormulaCalc.Proofs.DisplayRoundTrip
import FormulaCalc.Proofs.KnownCharacters
import FormulaCalc.Proofs.StarPositions
import FormulaCalc.Session.Evaluation
/-!
# What an evaluation leaves to show

Seen as a whole, there is nothing to show, or an error message, or a result: an `Outcome`.  A session
holds it as five outputs, which its operations write one by one.  Each operation writes the outputs
of one outcome or none at all, whatever the outputs were before (`toOutputs_fail` and the like).

An evaluation reads the entry without the blanks at its ends, the table and the values, and nothing
else (`Session.evaluate_eq`).  It shows the result of the expression if the text has one, with none of
the texts missing, and an error message alone otherwise (`Inputs.outcome_of_parse`,
`Inputs.outcome_of_parse_none`).

That no text of a result is missing takes a fact about each printer: no number, expression, listing
or written product is printed as the empty text.  For the listing and the products this holds only
because the text they are made from is not empty either.
-/

namespace FormulaCalc

section Printed

theorem ofList_ne_empty
    {text : List Char}
    (h : text ≠ []) :
    String.ofList text ≠ "" := by
  exact fun hempty => h (String.ofList_eq_empty_iff.1 hempty)

theorem render_ne_nil
    (v : Binary64) :
    v.render ≠ [] := by
  rw [Binary64.render]
  split
  · exact List.cons_ne_nil _ _
  · dsimp only
    split
    · exact List.cons_ne_nil _ _
    · split
      · exact (isNumeral_render _).ne_nil
      · exact List.cons_ne_nil _ _

theorem valueText_ne_empty
    (v : Binary64) :
    valueText v ≠ "" := by
  rw [valueText]
  split
  · decide
  · split
    · exact ofList_ne_empty (render_ne_nil v)
    · split <;> decide

namespace Expr

theorem bracketIf_ne_nil
    {text : List Char} (wanted : Bool)
    (h : text ≠ []) :
    bracketIf wanted text ≠ [] := by
  cases wanted with
  | false =>
      exact h
  | true =>
      exact List.cons_ne_nil _ _

theorem display_ne_nil
    (e : Expr) :
    e.display ≠ [] := by
  cases e with
  | number value =>
      exact bracketIf_ne_nil _ (render_ne_nil value)
  | var slot letter =>
      exact List.cons_ne_nil _ _
  | binary op left right =>
      exact List.cons_ne_nil _ _

theorem compact_ne_nil
    (e : Expr) :
    e.compact ≠ [] := by
  cases e with
  | number value =>
      exact bracketIf_ne_nil _ (render_ne_nil value)
  | var slot letter =>
      exact List.cons_ne_nil _ _
  | binary op left right =>
      rw [compact, compactAs]
      split
      · refine bracketIf_ne_nil _ ?_
        split <;> exact List.cons_ne_nil _ _
      · exact List.append_ne_nil_of_right_ne_nil _ (List.cons_ne_nil _ _)

end Expr

end Printed

section Listed

variable {table : VarTable} {text : List Char}

theorem ne_nil_of_mem_pieces
    {piece : List Char}
    (h : piece ∈ Token.pieces table text) :
    piece ≠ [] := by
  rcases List.mem_append.1 h with htoken | hunread
  · obtain ⟨token, hmem, rfl⟩ := List.mem_map.1 htoken
    exact ImplicitProduct.ne_nil_of_mem_walk true text token hmem
  · split at hunread
    · cases hunread
    · rw [List.mem_singleton.1 hunread]
      exact List.cons_ne_nil _ _

theorem listing_ne_nil
    (table : VarTable)
    (h : text ≠ []) :
    Token.listing table text ≠ [] := by
  intro hnil
  have hpieces := splitOn_listing table h
  rw [hnil, List.splitOn_nil] at hpieces
  exact ne_nil_of_mem_pieces (hpieces ▸ List.mem_singleton_self []) rfl

theorem insertStars_ne_nil
    (table : VarTable)
    (h : text ≠ []) :
    ImplicitProduct.insertStars table text ≠ [] := by
  have hlength := ImplicitProduct.length_insertStars table text
  have hpos := List.length_pos_iff.2 h
  exact List.length_pos_iff.1 (by omega)

end Listed

namespace Equation

theorem Failure.message_ne_empty
    (failure : Failure) :
    failure.message ≠ "" := by
  cases failure with
  | emptyText =>
      decide
  | malformed listing =>
      intro h
      have hprefix := (String.append_eq_empty_iff.1 (String.append_eq_empty_iff.1 h).1).1
      exact absurd hprefix (by decide)
  | notBuilt error =>
      intro h
      exact absurd (String.append_eq_empty_iff.1 h).1 (by decide)

theorem stagesNote_ne_empty :
    stagesNote ≠ "" := by
  decide

section Explained

variable {table : VarTable} {text : List Char}

/-- A text with an expression is not empty, and the steps are the texts of its stages. -/
theorem explain_of_parse
    {e : Expr}
    (h : parse? table text = some e) :
    text ≠ [] ∧
      explain table text = .ok (e,
        { tokens := String.ofList (Token.listing table text)
          products := String.ofList (ImplicitProduct.insertStars table text)
          tree := String.ofList e.display
          note := stagesNote }) := by
  have hvalid := exists_parse?_iff.1 ⟨e, h⟩
  obtain ⟨e', hbuild⟩ := exists_build_of_isValid hvalid
  rw [parse?, parse_of_build hvalid hbuild] at h
  obtain rfl : e' = e := Option.some.inj h
  have hne : text ≠ [] := by
    rintro rfl
    rw [isValid_nil] at hvalid
    cases hvalid
  refine ⟨hne, ?_⟩
  rw [explain, if_neg (hne ∘ List.isEmpty_iff.1), if_pos hvalid]
  simp only [hbuild]

/-- A text without an expression is refused as it stands, never for what is built from it. -/
theorem explain_of_parse_none
    (h : parse? table text = none) :
    explain table text =
      .error (if text.isEmpty then .emptyText else .malformed (Token.listing table text)) := by
  rw [explain, parse?_eq_none_iff.1 h]
  split <;> rfl

end Explained

end Equation

/-- What there is to show, as a whole. -/
inductive Outcome where
  | blank
  | failed (message : String)
  | shown (value form : String) (steps : Equation.Steps)
deriving DecidableEq

/-- The outputs that show an outcome. -/
def Outcome.outputs : Outcome → Outputs
  | blank =>
      { value := "", form := "", error := "", isAvailable := false, steps := .blank }
  | failed message =>
      { value := "", form := "", error := message, isAvailable := false, steps := .blank }
  | shown value form steps =>
      { value := value, form := form, error := "", isAvailable := true, steps := steps }

namespace Outputs

/-- What the outputs of a calculator can look like. -/
inductive Form where
  | blank
  | error
  | result
deriving DecidableEq

/--
Whether outputs look like this: nothing is shown, or an error message and nothing else, or a result
with all its texts and no error message.
-/
def HasForm (o : Outputs) : Form → Prop
  | .blank =>
      o.error = "" ∧ o.isAvailable = false ∧ o.value = "" ∧ o.form = "" ∧ o.steps = .blank
  | .error =>
      o.error ≠ "" ∧ o.isAvailable = false ∧ o.value = "" ∧ o.form = "" ∧ o.steps = .blank
  | .result =>
      o.error = "" ∧ o.isAvailable = true ∧ o.value ≠ "" ∧ o.form ≠ "" ∧
        o.steps.tokens ≠ "" ∧ o.steps.products ≠ "" ∧ o.steps.tree ≠ "" ∧ o.steps.note ≠ ""

/-- Outputs have one form at most. -/
theorem HasForm.unique
    {o : Outputs} {form form' : Form}
    (h : o.HasForm form)
    (h' : o.HasForm form') :
    form = form' := by
  cases form <;> cases form' <;> simp_all [HasForm]

/--
Outputs that are all written together show an outcome: no error message stands beside a result, and
without a result no text of one is left.
-/
theorem exists_outcome_iff
    {o : Outputs} :
    (∃ outcome : Outcome, o = outcome.outputs) ↔
      (o.isAvailable = true → o.error = "") ∧
        (o.isAvailable = false → o.value = "" ∧ o.form = "" ∧ o.steps = .blank) := by
  constructor
  · rintro ⟨outcome, rfl⟩
    cases outcome <;> simp [Outcome.outputs]
  · obtain ⟨value, form, error, isAvailable, steps⟩ := o
    rintro ⟨herror, htexts⟩
    cases isAvailable with
    | true =>
        obtain rfl : error = "" := herror rfl
        exact ⟨.shown value form steps, rfl⟩
    | false =>
        obtain ⟨rfl, rfl, rfl⟩ : value = "" ∧ form = "" ∧ steps = .blank := htexts rfl
        exact ⟨.failed error, rfl⟩

end Outputs

/-- What an evaluation reads: a text without blanks at its ends, a table, and the values. -/
structure Inputs where
  text : List Char
  table : VarTable
  values : Vector Binary64 variableCount

namespace Inputs

/-- The outcome of evaluating a text. -/
def outcome (inputs : Inputs) : Outcome :=
  match Equation.explain inputs.table inputs.text with
  | .error failure => .failed failure.message
  | .ok (e, steps) =>
      .shown (valueText (e.value inputs.values.toArray)) (String.ofList e.compact)
        { steps with note := steps.note ++ "\nVariables lues : " ++ readNames inputs.table e }

/-- What there is to show for an expression that the text has. -/
def result (inputs : Inputs) (e : Expr) : Outcome :=
  .shown (valueText (e.value inputs.values.toArray)) (String.ofList e.compact)
    { tokens := String.ofList (Token.listing inputs.table inputs.text)
      products := String.ofList (ImplicitProduct.insertStars inputs.table inputs.text)
      tree := String.ofList e.display
      note := Equation.stagesNote ++ "\nVariables lues : " ++ readNames inputs.table e }

/-- Why a text without an expression is refused. -/
def refusal (inputs : Inputs) : Equation.Failure :=
  if inputs.text.isEmpty then .emptyText
  else .malformed (Token.listing inputs.table inputs.text)

section Forms

variable {inputs : Inputs}

/-- **A text that has an expression ends with its result, which lacks no text.** -/
theorem outcome_of_parse
    {e : Expr}
    (h : Equation.parse? inputs.table inputs.text = some e) :
    inputs.outcome = inputs.result e ∧ (inputs.result e).outputs.HasForm .result := by
  obtain ⟨hne, hexplain⟩ := Equation.explain_of_parse h
  constructor
  · rw [outcome, hexplain]
    rfl
  · refine ⟨rfl, rfl, valueText_ne_empty _, ?_, ?_, ?_, ?_, ?_⟩
    · exact ofList_ne_empty e.compact_ne_nil
    · exact ofList_ne_empty (listing_ne_nil inputs.table hne)
    · exact ofList_ne_empty (insertStars_ne_nil inputs.table hne)
    · exact ofList_ne_empty e.display_ne_nil
    · intro hnote
      have hstages := (String.append_eq_empty_iff.1 (String.append_eq_empty_iff.1 hnote).1).1
      exact Equation.stagesNote_ne_empty hstages

/-- **A text that has none ends with an error message alone.** -/
theorem outcome_of_parse_none
    (h : Equation.parse? inputs.table inputs.text = none) :
    inputs.outcome = .failed inputs.refusal.message ∧ inputs.outcome.outputs.HasForm .error := by
  have hfailed : inputs.outcome = .failed inputs.refusal.message := by
    rw [outcome, Equation.explain_of_parse_none h]
    rfl
  refine ⟨hfailed, ?_⟩
  rw [hfailed]
  exact ⟨inputs.refusal.message_ne_empty, rfl, rfl, rfl, rfl⟩

theorem hasForm_outcome
    (inputs : Inputs) :
    inputs.outcome.outputs.HasForm .error ∨ inputs.outcome.outputs.HasForm .result := by
  cases hparse : Equation.parse? inputs.table inputs.text with
  | none =>
      exact .inl (outcome_of_parse_none hparse).2
  | some e =>
      obtain ⟨heq, hresult⟩ := outcome_of_parse hparse
      rw [heq]
      exact .inr hresult

end Forms

end Inputs

namespace Session

/-- What an evaluation of the entry reads. -/
def inputs (table : VarTable) (s : Session) : Inputs :=
  ⟨trimBlanks s.entry, table, s.values⟩

section Outputs

variable (s : Session)

theorem toOutputs_clearOutputs :
    s.clearOutputs.toOutputs = Outcome.blank.outputs := by
  rfl

theorem toOutputs_fail
    (message : String) :
    (s.fail message).toOutputs = (Outcome.failed message).outputs := by
  rfl

theorem toOutputs_present
    (value form : String) (steps : Equation.Steps) :
    (s.present value form steps).toOutputs = (Outcome.shown value form steps).outputs := by
  rfl

/-- Starting over sets every field as a new session has it. -/
theorem reset_eq_initial :
    s.reset = initial := by
  rfl

/--
**All ways out of an evaluation write the outputs of the outcome of what it reads.**  The entry and
the values stay, and the focus is asked for.
-/
theorem evaluate_eq
    (table : VarTable) :
    s.evaluate table = ⟨(s.inputs table).outcome.outputs, s.entry, s.values, true⟩ := by
  simp only [evaluate, Inputs.outcome, inputs]
  cases htext : (trimBlanks s.entry).isEmpty with
  | true =>
      -- the blank entry is refused before it is read, with the words that reading it would have
      have hexplain : Equation.explain table (trimBlanks s.entry) = .error .emptyText := by
        rw [Equation.explain, if_pos htext]
      rw [hexplain, if_pos rfl]
      rfl
  | false =>
      rw [if_neg Bool.false_ne_true]
      cases Equation.explain table (trimBlanks s.entry) with
      | error failure =>
          rfl
      | ok found =>
          rfl

theorem toOutputs_evaluate
    (table : VarTable) :
    (s.evaluate table).toOutputs = (s.inputs table).outcome.outputs := by
  rw [evaluate_eq]

/-- An evaluation reads the entry, the values and the table, and nothing else. -/
theorem evaluate_congr
    {s s' : Session}
    (table : VarTable)
    (hentry : s.entry = s'.entry)
    (hvalues : s.values = s'.values) :
    s.evaluate table = s'.evaluate table := by
  rw [evaluate_eq, evaluate_eq, inputs, inputs, hentry, hvalues]

end Outputs

end Session

end FormulaCalc
