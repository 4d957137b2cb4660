import FormulaCalc.Proofs.EnterKey
/-!
# What each button leaves alone

A session has three parts: the entry, the outputs and the values.  Each button, key and field of the
window works on one of them, and all leave the registry alone (`EntryOnly`, `OutputsOnly`,
`ValueOnly`; the request for the focus is no part of this).  The first of these relations can be
chained, so that it holds along runs of any length.

Clicks are followed by any number of idle frames, which the toolkit may draw or not.
-/

namespace FormulaCalc

namespace Window

/-- The characters that have a button: those that are always there, and the letters offered. -/
theorem insert_mem_buttons_iff
    {table : VarTable} {letter : Char} :
    Button.insert letter ∈ buttons table ↔
      letter ∈ ['(', ')', '+', '-', '*', '/', '^', '.', '0', '1', '2', '3', '4', '5', '6', '7',
          '8', '9'] ∨
        ∃ slot < variableCount, (letter, slot) ∈ table.entries := by
  have hsymbols (symbols : List Char) :
      Button.insert letter ∈ symbols.map .insert ↔ letter ∈ symbols := by
    simp
  have hletters :
      Button.insert letter ∈ (shownLetters table).map (fun entry => .insert entry.1) ↔
        ∃ slot < variableCount, (letter, slot) ∈ table.entries := by
    simp [shownLetters, and_comm]
  simp only [buttons, List.mem_append, hsymbols, hletters, List.mem_cons, List.not_mem_nil,
    reduceCtorEq, or_false]
  grind

end Window

namespace Calculator

variable {toolkit : Toolkit}

/-- Whether two calculators are the same but for their entries. -/
structure EntryOnly (c c' : Calculator toolkit) : Prop where
  values_eq : c'.session.values = c.session.values
  toOutputs_eq : c'.session.toOutputs = c.session.toOutputs
  registry_eq : c'.registry = c.registry

/-- Whether two calculators are the same but for their outputs. -/
structure OutputsOnly (c c' : Calculator toolkit) : Prop where
  entry_eq : c'.session.entry = c.session.entry
  values_eq : c'.session.values = c.session.values
  registry_eq : c'.registry = c.registry

/--
Whether two calculators are the same but for their values, and these but for the one in a slot: there
the second has a finite value that the toolkit reports when the user sets another one.
-/
structure ValueOnly (slot? : Option Nat) (value : Binary64) (c c' : Calculator toolkit) : Prop where
  entry_eq : c'.session.entry = c.session.entry
  toOutputs_eq : c'.session.toOutputs = c.session.toOutputs
  registry_eq : c'.registry = c.registry
  value_eq : ∀ slot, c'.session.values[slot]? ≠ c.session.values[slot]? →
    slot? = some slot ∧
      ∃ shown changed,
        c.session.values[slot]? = some shown ∧
        toolkit.change? c.memory shown value = some changed ∧
        changed.isFinite ∧
        c'.session.values[slot]? = some changed

/--
Whether an action is a frame in which at most the entry is edited: by a button that puts a character
there or takes some away, by the escape key, or by typing.
-/
def Action.EditsEntry : Action → Prop
  | .frame (.click (.insert _)) | .frame (.click .backspace) | .frame (.click .clearEntry)
  | .frame (.key .escape) | .frame (.edit _) | .frame .look => True
  | _ => False

section Entry

variable {c c' c'' : Calculator toolkit} {actions : List Action}

theorem EntryOnly.trans
    (h : EntryOnly c c')
    (h' : EntryOnly c' c'') :
    EntryOnly c c'' where
  values_eq := h'.values_eq.trans h.values_eq
  toOutputs_eq := h'.toOutputs_eq.trans h.toOutputs_eq
  registry_eq := h'.registry_eq.trans h.registry_eq

/-- A frame that only edits the entry, as the session behind it shows. -/
theorem entryOnly_of_session
    {gesture : Window.Gesture} {entry : List Char} {wantsFocus : Bool}
    (h : (c.after (.frame gesture)).session =
      { c.session with entry := entry, wantsFocus := wantsFocus }) :
    EntryOnly c (c.after (.frame gesture)) where
  values_eq := by rw [h]
  toOutputs_eq := by rw [h]
  registry_eq := rfl

theorem session_after_click
    (c : Calculator toolkit) (b : Button) :
    (c.after (.frame (.click b))).session =
      if b ∈ Window.buttons c.registry.table then b.press c.registry.table c.session.drawn
      else c.session.drawn := by
  exact Window.frame_click c.session b

theorem entryOnly_after
    {a : Action}
    (c : Calculator toolkit)
    (h : a.EditsEntry) :
    EntryOnly c (c.after a) := by
  unfold Action.EditsEntry at h
  split at h
  case h_1 | h_2 | h_3 =>
    have hclick := session_after_click c
    constructor
    · rw [hclick]
      split <;> rfl
    · rw [hclick]
      split <;> rfl
    · rfl
  case h_4 =>
    exact entryOnly_of_session (Window.frame_escape c.session)
  case h_5 text =>
    exact entryOnly_of_session (Window.frame_edit c.session text)
  case h_6 =>
    exact entryOnly_of_session (Window.frame_look c.session)
  case h_7 =>
    exact h.elim

theorem entryOnly_run
    (c : Calculator toolkit)
    (h : ∀ a ∈ actions, a.EditsEntry) :
    EntryOnly c (c.run actions) := by
  induction actions generalizing c with
  | nil =>
      exact ⟨rfl, rfl, rfl⟩
  | cons a actions ih =>
      obtain ⟨ha, hactions⟩ := List.forall_mem_cons.1 h
      exact (entryOnly_after c ha).trans (ih (c.after a) hactions)

/-- What a click does to the entry is what its button does, however many frames follow. -/
theorem entry_run_click
    {b : Button}
    (h : b ∈ Window.buttons c.registry.table)
    (idle : Nat) :
    (c.run (Action.click b idle)).session.entry =
      (b.press c.registry.table c.session.drawn).entry := by
  rw [session_run_click h]
  split <;> rfl

/-- Clicks on the buttons of characters, each of them with the idle frames behind it. -/
def Action.inserting (clicks : List (Char × Nat)) : List Action :=
  clicks.flatMap fun click => Action.click (.insert click.1) click.2

/-- Clicks on the button that takes a character away, with the idle frames behind them. -/
def Action.deleting (idles : List Nat) : List Action :=
  idles.flatMap (Action.click .backspace)

theorem entry_run_inserting
    {clicks : List (Char × Nat)}
    (h : ∀ click ∈ clicks, .insert click.1 ∈ Window.buttons c.registry.table) :
    (c.run (Action.inserting clicks)).session.entry =
        c.session.entry ++ clicks.map Prod.fst ∧
      (c.run (Action.inserting clicks)).registry = c.registry := by
  induction clicks generalizing c with
  | nil =>
      exact ⟨(List.append_nil _).symm, rfl⟩
  | cons click clicks ih =>
      obtain ⟨hclick, hclicks⟩ := List.forall_mem_cons.1 h
      have hregistry := registry_run_click c (.insert click.1) click.2
      obtain ⟨hentry, hlast⟩ := ih (c := c.run (Action.click (.insert click.1) click.2))
        (by rwa [hregistry])
      rw [Action.inserting, List.flatMap_cons, run_append]
      refine ⟨hentry.trans ?_, hlast.trans hregistry⟩
      rw [entry_run_click hclick]
      exact List.append_assoc _ [click.1] _

theorem entry_run_deleting
    (c : Calculator toolkit) (idles : List Nat) :
    (c.run (Action.deleting idles)).session.entry =
      c.session.entry.take (c.session.entry.length - idles.length) := by
  induction idles generalizing c with
  | nil =>
      exact List.take_length.symm
  | cons idle idles ih =>
      have hbutton : Button.backspace ∈ Window.buttons c.registry.table := by
        simp [Window.buttons]
      have hentry : (c.run (Action.click .backspace idle)).session.entry =
          c.session.entry.dropLast :=
        entry_run_click hbutton idle
      rw [Action.deleting, List.flatMap_cons, run_append]
      refine (ih _).trans ?_
      rw [hentry, List.length_dropLast, List.dropLast_eq_take, List.take_take, List.length_cons]
      congr 1
      omega

/-- As many steps back as characters were put in lead to the entry they were put behind. -/
theorem entry_run_inserting_deleting
    {clicks : List (Char × Nat)} {idles : List Nat}
    (h : ∀ click ∈ clicks, .insert click.1 ∈ Window.buttons c.registry.table)
    (hlength : idles.length = clicks.length) :
    (c.run (Action.inserting clicks ++ Action.deleting idles)).session.entry =
      c.session.entry := by
  rw [run_append, entry_run_deleting, (entry_run_inserting h).1, hlength, List.length_append,
    List.length_map, Nat.add_sub_cancel, List.take_left]

end Entry

section Parts

theorem session_after_clearOutputs
    (c : Calculator toolkit) :
    (c.after (.frame (.click .clearOutputs))).session =
      c.session.drawn.clearOutputs.askFocus := by
  rw [session_after_click, if_pos (by simp [Window.buttons])]
  rfl

/-- The button that starts over leads to a new session, field by field. -/
theorem session_after_reset
    (c : Calculator toolkit) :
    (c.after (.frame (.click .reset))).session = .initial := by
  rw [session_after_click, if_pos (by simp [Window.buttons])]
  exact congrArg Session.askFocus c.session.drawn.reset_eq_initial

/-- An evaluation reads nothing that it changes, so another one behind it changes nothing. -/
theorem session_after_equals_twice
    (c : Calculator toolkit) (idle : Nat) :
    ((c.run (Action.click .evaluate idle)).after .equals).session =
      (c.after .equals).session := by
  have hrun := session_run_click (Window.evaluate_mem_buttons c.registry.table) idle
  rw [Button.press, Session.evaluate_eq] at hrun
  rw [session_after_equals, session_after_equals, registry_run_click, hrun]
  refine Session.evaluate_congr c.registry.table ?_ ?_
  · split <;> rfl
  · split <;> rfl

theorem values_setValue_of_ne
    {s : Session} {slot changed : Nat} {value : Binary64}
    (h : (s.setValue slot value).values[changed]? ≠ s.values[changed]?) :
    slot = changed ∧ (s.setValue slot value).values[changed]? = some value ∧
      value.isFinite := by
  by_cases hfinite : value.isFinite
  · rw [values_setValue s slot hfinite, Vector.getElem?_setIfInBounds] at h ⊢
    split at h
    · next heq =>
        obtain rfl := heq
        split at h
        · next hlt =>
            rw [if_pos rfl, if_pos hlt]
            exact ⟨rfl, rfl, hfinite⟩
        · next hlt =>
            exact absurd (Vector.getElem?_eq_none (Nat.le_of_not_lt hlt)).symm h
    · exact absurd rfl h
  · rw [Session.setValue, if_neg hfinite] at h
    exact absurd rfl h

/-- A value field sets the slot of its letter and nothing else. -/
theorem valueOnly_adjust
    (c : Calculator toolkit) (rank : Nat) (value : Binary64) :
    ValueOnly ((Window.shownLetters c.registry.table)[rank]?.map Prod.snd) value c
      (c.after (.frame (.adjust rank value))) := by
  have hframe := (session_after_frame c _).trans (Window.frame_adjust c.session rank value)
  rcases Window.valueField_adjust toolkit c.registry.table c.memory c.session.drawn rank value with
    hfield | ⟨letter, slot, shown, changed, hletter, hshown, hchange, hfield⟩
  · rw [hfield] at hframe
    constructor
    case entry_eq | toOutputs_eq =>
      rw [hframe]
      rfl
    case registry_eq =>
      rfl
    case value_eq =>
      intro slot hne
      rw [hframe] at hne
      exact absurd rfl hne
  · rw [hfield] at hframe
    constructor
    case entry_eq | toOutputs_eq =>
      rw [hframe]
      rfl
    case registry_eq =>
      rfl
    case value_eq =>
      intro slot' hne
      rw [hframe] at hne ⊢
      obtain ⟨rfl, hvalue, hfinite⟩ := values_setValue_of_ne hne
      rw [hletter]
      exact ⟨rfl, shown, changed, hshown, hchange, hfinite, hvalue⟩

end Parts

/-- How the buttons, keys and fields of the window keep to their parts of the state. -/
structure KeepsToParts (c : Calculator toolkit) : Prop where
  /-- The buttons of characters are the symbols, the digits and the letters offered. -/
  insert_mem_buttons_iff : ∀ letter, Button.insert letter ∈ Window.buttons c.registry.table ↔
    letter ∈ ['(', ')', '+', '-', '*', '/', '^', '.', '0', '1', '2', '3', '4', '5', '6', '7',
        '8', '9'] ∨
      ∃ slot < variableCount, (letter, slot) ∈ c.registry.table.entries
  inserting : ∀ clicks : List (Char × Nat),
    (∀ click ∈ clicks, .insert click.1 ∈ Window.buttons c.registry.table) →
      (c.run (Action.inserting clicks)).session.entry = c.session.entry ++ clicks.map Prod.fst
  inserting_deleting : ∀ (clicks : List (Char × Nat)) (idles : List Nat),
    (∀ click ∈ clicks, .insert click.1 ∈ Window.buttons c.registry.table) →
    idles.length = clicks.length →
      (c.run (Action.inserting clicks ++ Action.deleting idles)).session.entry = c.session.entry
  entryOnly : ∀ actions : List Action,
    (∀ a ∈ actions, a.EditsEntry) → EntryOnly c (c.run actions)
  clearEntry : (c.after (.frame (.click .clearEntry))).session.entry = []
  /-- The escape key does what the button `C` does, but for the focus. -/
  escape : (c.after (.frame (.key .escape))).session =
    (c.after (.frame (.click .clearEntry))).session.drawn
  clearOutputs : OutputsOnly c (c.after (.frame (.click .clearOutputs))) ∧
    (c.after (.frame (.click .clearOutputs))).session.toOutputs = Outcome.blank.outputs
  evaluate : OutputsOnly c (c.after .equals) ∧
    (c.after .equals).session.toOutputs = c.inputs.outcome.outputs
  evaluate_twice : ∀ idle,
    ((c.run (Action.click .evaluate idle)).after .equals).session = (c.after .equals).session
  adjust : ∀ rank value,
    ValueOnly ((c.registry.table.entries.filter (·.2 < variableCount))[rank]?.map Prod.snd) value
      c (c.after (.frame (.adjust rank value)))
  /-- Starting over, at the window or behind it, leads to a new session and keeps the registry. -/
  reset : (c.after (.frame (.click .reset))).session = .initial ∧
    (c.after (.frame (.click .reset))).registry = c.registry ∧
    (c.after .reset).session = .initial

/--
In every state, under every toolkit, the buttons, keys and fields of the window keep to their parts.
Characters put in stand behind the entry, and as many steps back lead to the entry again.  What
edits the entry, in any number and order, changes nothing else; clearing the outputs and evaluating
change nothing but the outputs, and evaluating once more changes nothing at all; a value field
changes at most the value in the slot that its letter has at that time; starting over leads to a
new session.
-/
theorem buttons_keep_to_their_parts
    (c : Calculator toolkit) :
    c.KeepsToParts := by
  constructor
  case insert_mem_buttons_iff =>
    exact fun letter => Window.insert_mem_buttons_iff
  case inserting =>
    exact fun clicks h => (entry_run_inserting h).1
  case inserting_deleting =>
    exact fun clicks idles h hlength => entry_run_inserting_deleting h hlength
  case entryOnly =>
    exact fun actions h => entryOnly_run c h
  case clearEntry =>
    rw [session_after_click, if_pos (by simp [Window.buttons])]
    rfl
  case escape =>
    rw [session_after_click, if_pos (by simp [Window.buttons])]
    exact Window.frame_escape c.session
  case clearOutputs =>
    refine ⟨⟨?_, ?_, rfl⟩, ?_⟩
    · rw [session_after_clearOutputs]
      rfl
    · rw [session_after_clearOutputs]
      rfl
    · rw [session_after_clearOutputs]
      exact c.session.drawn.toOutputs_clearOutputs
  case evaluate =>
    obtain ⟨hentry, hvalues, houtputs⟩ := after_equals c
    exact ⟨⟨hentry, hvalues, rfl⟩, houtputs⟩
  case evaluate_twice =>
    exact session_after_equals_twice c
  case adjust =>
    exact valueOnly_adjust c
  case reset =>
    exact ⟨session_after_reset c, rfl, c.session.reset_eq_initial⟩

/--
The letters `u` and `C` are put behind a character that the window has no button for, and taken
away again; between the clicks some frames pass.
-/
theorem buttons_keep_to_their_parts_around_foreign_character :
    let c := (initial .standard).run [.register 'u' 2, .register 'C' 1, .frame (.edit ['é'])]
    (∀ click ∈ [('u', 1), ('C', 0)], .insert click.1 ∈ Window.buttons c.registry.table) ∧
      (c.run (Action.inserting [('u', 1), ('C', 0)])).session.entry = ['é', 'u', 'C'] ∧
      (c.run (Action.inserting [('u', 1), ('C', 0)] ++ Action.deleting [0, 2])).session.entry =
        ['é'] := by
  intro c
  have hbuttons :
      ∀ click ∈ [('u', 1), ('C', 0)], .insert click.1 ∈ Window.buttons c.registry.table := by
    decide +kernel
  have hkeeps := buttons_keep_to_their_parts c
  exact ⟨hbuttons, hkeeps.inserting _ hbuttons, hkeeps.inserting_deleting _ [0, 2] hbuttons rfl⟩

end Calculator

end FormulaCalc
