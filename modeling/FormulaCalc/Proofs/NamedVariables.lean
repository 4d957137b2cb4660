import FormulaCalc.Proofs.Evaluations
import FormulaCalc.Proofs.Variables
/-!
# The variables that a result names

The note of a result names one letter for every slot that its expression reads.  The letter is
looked up by the slot, so it is the first letter of the table that has the slot, whichever letter
was read.  All letters named are letters of the text exactly if, with each of its letters, the text
has the first one that shares the slot (`note_of_evaluation`).

This is so in tables without shared slots.  With `a` and `x` in one slot, the note of `x` says that
`a` has been read.
-/

namespace FormulaCalc

/-- The first letter of the table that has the slot of a letter. -/
def VarTable.firstSharing? (table : VarTable) (letter : Char) : Option Char :=
  (table.slotOf? letter).bind table.letterOf?

/-- The letters that are named for the slots an expression reads. -/
def Expr.namedLetters (table : VarTable) (e : Expr) : List Char :=
  e.slots.filterMap table.letterOf?

/-- The words of a note for the letters it names. -/
def nameList (named : List Char) : String :=
  if named.isEmpty then "aucune"
  else ", ".intercalate (named.map Char.toString)

section Words

/-- The word for no letters is not what any letters are written as. -/
theorem nameList_eq_aucune_iff
    {named : List Char} :
    nameList named = "aucune" ↔ named = [] := by
  cases named with
  | nil =>
      simp [nameList]
  | cons c rest =>
      refine iff_of_false (fun h => ?_) (List.cons_ne_nil c rest)
      have hchars := congrArg String.toList h
      rw [nameList, List.isEmpty_cons, if_neg Bool.false_ne_true, String.toList_intercalate]
        at hchars
      -- one letter is too short, and behind the first of several there is a comma
      cases rest with
      | nil =>
          simp at hchars
      | cons d rest =>
          simp [List.intercalate_cons_cons] at hchars

end Words

section Lookup

variable {table : VarTable} {slots : List Nat}

/-- Slots and the letters they lead back to are listed in the same order. -/
theorem map_filterMap_letterOf?
    {β : Type} {f : Nat → β} {g : Char → β}
    (h : ∀ slot ∈ slots, ∃ letter, table.letterOf? slot = some letter ∧ g letter = f slot) :
    (slots.filterMap table.letterOf?).map g = slots.map f := by
  induction slots with
  | nil =>
      rfl
  | cons slot slots ih =>
      obtain ⟨⟨letter, hletter, heq⟩, hrest⟩ := List.forall_mem_cons.1 h
      rw [List.filterMap_cons_some hletter, List.map_cons, List.map_cons, ih hrest, heq]

theorem slotName_of_letterOf?
    {slot : Nat} {letter : Char}
    (h : table.letterOf? slot = some letter) :
    slotName table slot = letter.toString := by
  rw [slotName, h]

theorem firstSharing?_eq_self
    {letter : Char}
    (hcontains : table.contains letter)
    (h : ∀ l, table.slotOf? l = table.slotOf? letter → l = letter) :
    table.firstSharing? letter = some letter := by
  obtain ⟨slot, hslot⟩ := Option.isSome_iff_exists.1 hcontains
  rw [VarTable.firstSharing?, hslot, Option.bind_some, VarTable.letterOf?_eq_some_iff]
  refine ⟨hslot, fun l hl => ?_⟩
  obtain rfl := h l (hl.trans hslot.symm)
  exact Char.le_refl l

end Lookup

namespace Equation

variable {table : VarTable} {text : List Char} {e : Expr}

theorem exists_letterOf?_of_mem_slots
    (h : parse? table text = some e) :
    ∀ slot ∈ e.slots, ∃ letter, table.letterOf? slot = some letter := by
  intro slot hslot
  obtain ⟨c, -, hc⟩ := (mem_slots_iff_of_parse? h).1 hslot
  exact VarTable.exists_letterOf? hc

/-- The letters named have the slots of the expression, in the same order. -/
theorem map_slotOf?_namedLetters
    (h : parse? table text = some e) :
    (e.namedLetters table).map table.slotOf? = e.slots.map some := by
  refine map_filterMap_letterOf? fun slot hslot => ?_
  obtain ⟨letter, hletter⟩ := exists_letterOf?_of_mem_slots h slot hslot
  exact ⟨letter, hletter, VarTable.slotOf?_of_letterOf? hletter⟩

theorem map_toString_namedLetters
    (h : parse? table text = some e) :
    (e.namedLetters table).map Char.toString = e.slots.map (slotName table) := by
  refine map_filterMap_letterOf? fun slot hslot => ?_
  obtain ⟨letter, hletter⟩ := exists_letterOf?_of_mem_slots h slot hslot
  exact ⟨letter, hletter, (slotName_of_letterOf? hletter).symm⟩

theorem namedLetters_eq_nil_iff_slots
    (h : parse? table text = some e) :
    e.namedLetters table = [] ↔ e.slots = [] := by
  have hlength := congrArg List.length (map_slotOf?_namedLetters h)
  rw [List.length_map, List.length_map] at hlength
  rw [← List.length_eq_zero_iff, hlength, List.length_eq_zero_iff]

theorem readNames_eq_nameList
    (h : parse? table text = some e) :
    readNames table e = nameList (e.namedLetters table) := by
  have hempty := namedLetters_eq_nil_iff_slots h
  rw [← List.isEmpty_iff, ← List.isEmpty_iff, ← Bool.eq_iff_iff] at hempty
  rw [readNames, nameList, hempty, map_toString_namedLetters h]

/-- **A letter is named if it is the first to share the slot of some letter of the text.** -/
theorem mem_namedLetters_iff
    {letter : Char}
    (h : parse? table text = some e) :
    letter ∈ e.namedLetters table ↔ ∃ c ∈ text, table.firstSharing? c = some letter := by
  rw [Expr.namedLetters, List.mem_filterMap]
  constructor
  · rintro ⟨slot, hslot, hletter⟩
    obtain ⟨c, hc, hcslot⟩ := (mem_slots_iff_of_parse? h).1 hslot
    exact ⟨c, hc, by rw [VarTable.firstSharing?, hcslot, Option.bind_some, hletter]⟩
  · rintro ⟨c, hc, hfirst⟩
    obtain ⟨slot, hcslot, hletter⟩ := Option.bind_eq_some_iff.1 hfirst
    exact ⟨slot, (mem_slots_iff_of_parse? h).2 ⟨c, hc, hcslot⟩, hletter⟩

/-- Nothing is named exactly if the text has no letters. -/
theorem namedLetters_eq_nil_iff
    (h : parse? table text = some e) :
    e.namedLetters table = [] ↔ letters text = [] := by
  rw [namedLetters_eq_nil_iff_slots h, ← letters_of_parse? h, List.map_eq_nil_iff,
    List.eq_nil_iff_forall_not_mem, List.eq_nil_iff_forall_not_mem]
  constructor
  · intro hslots found hfound
    exact hslots found.1 (Expr.mem_slots.2 ⟨found.2, hfound⟩)
  · intro hoccurrences slot hslot
    obtain ⟨letter, hfound⟩ := Expr.mem_slots.1 hslot
    exact hoccurrences _ hfound

end Equation

/-- A successful evaluation keeps the note of the stages, with the words for what was read. -/
theorem note_of_available
    {table : VarTable} {s : Session}
    (h : (s.evaluate table).isAvailable) :
    ∃ e, Equation.parse? table (trimBlanks s.entry) = some e ∧
      (s.evaluate table).steps.note =
        Equation.stagesNote ++ "\nVariables lues : " ++ readNames table e := by
  rw [Session.evaluate_eq] at h ⊢
  cases hparse : Equation.parse? (s.inputs table).table (s.inputs table).text with
  | none =>
      rw [(Inputs.outcome_of_parse_none hparse).1] at h
      cases h
  | some e =>
      rw [(Inputs.outcome_of_parse hparse).1]
      exact ⟨e, hparse, rfl⟩

/-- What the note of a result says of the text and the expression that was read. -/
structure NamesVariables (table : VarTable) (text : List Char) (e : Expr) (note : String) : Prop where
  note_eq : note =
    Equation.stagesNote ++ "\nVariables lues : " ++ nameList (e.namedLetters table)
  /-- The word for none stands for a text without letters. -/
  aucune_iff : nameList (e.namedLetters table) = "aucune" ↔ letters text = []
  /-- Each slot that is read has one letter named, in the order of the slots. -/
  slots_eq : (e.namedLetters table).map table.slotOf? = e.slots.map some
  sorted : e.slots.Pairwise (· < ·)
  /-- The letters named are the first to share the slots of the letters of the text. -/
  mem_iff : ∀ letter, letter ∈ e.namedLetters table ↔
    ∃ c ∈ text, table.firstSharing? c = some letter
  all_read_iff : (∀ letter ∈ e.namedLetters table, letter ∈ text) ↔
    ∀ c ∈ text, ∀ first, table.firstSharing? c = some first → first ∈ text
  all_read_of_injective :
    (∀ c l, table.contains c → table.slotOf? l = table.slotOf? c → l = c) →
      ∀ letter ∈ e.namedLetters table, letter ∈ text

/--
The note of a result names letters in the order of the slots that the expression reads, one for
each, or has a word for none if the text has no letters.  The letters named are the first to share
the slots of the letters of the text.  They are all in the text exactly if the text has these first
letters with its own, as it always has where no two letters share a slot.
-/
theorem note_of_evaluation
    (table : VarTable) (s : Session)
    (h : (s.evaluate table).isAvailable) :
    ∃ e, Equation.parse? table (trimBlanks s.entry) = some e ∧
      NamesVariables table (trimBlanks s.entry) e (s.evaluate table).steps.note := by
  obtain ⟨e, hparse, hnote⟩ := note_of_available h
  have hmem (letter : Char) :
      letter ∈ e.namedLetters table ↔
        ∃ c ∈ trimBlanks s.entry, table.firstSharing? c = some letter :=
    Equation.mem_namedLetters_iff hparse
  rw [Equation.readNames_eq_nameList hparse] at hnote
  refine ⟨e, hparse, ?_⟩
  constructor
  case note_eq =>
    exact hnote
  case aucune_iff =>
    rw [nameList_eq_aucune_iff, Equation.namedLetters_eq_nil_iff hparse]
  case slots_eq =>
    exact Equation.map_slotOf?_namedLetters hparse
  case sorted =>
    exact e.slots_sorted
  case mem_iff =>
    exact hmem
  case all_read_iff =>
    constructor
    · intro hall c hc first hfirst
      exact hall first ((hmem first).2 ⟨c, hc, hfirst⟩)
    · intro hclosed letter hletter
      obtain ⟨c, hc, hfirst⟩ := (hmem letter).1 hletter
      exact hclosed c hc letter hfirst
  case all_read_of_injective =>
    intro hinjective letter hletter
    obtain ⟨c, hc, hfirst⟩ := (hmem letter).1 hletter
    obtain ⟨slot, hslot, -⟩ := Option.bind_eq_some_iff.1 hfirst
    have hcontains := contains_of_slotOf? hslot
    rw [firstSharing?_eq_self hcontains fun l => hinjective c l hcontains, Option.some.injEq]
      at hfirst
    exact hfirst ▸ hc

/-- An entry with blanks around it and two letters in one slot. -/
def sharingEntry : Session :=
  Session.initial.setEntry " b(2-a)x ".toList

/-- Of two letters in one slot the first is named, and both are in the text. -/
theorem note_of_sharingEntry :
    (sharingEntry.evaluate Equation.sharedTable).isAvailable = true ∧
      (sharingEntry.evaluate Equation.sharedTable).steps.note =
        Equation.stagesNote ++ "\nVariables lues : " ++ "a, x" := by
  have havailable : (sharingEntry.evaluate Equation.sharedTable).isAvailable = true := by
    decide +kernel
  obtain ⟨e, hparse, hnames⟩ := note_of_evaluation _ _ havailable
  have hproduct : Equation.parse? Equation.sharedTable (trimBlanks sharingEntry.entry) =
      some (.binary .mul (.var 1 'b')
        (.binary .mul
          (.binary .sub (.number (.ofBits 0x4000000000000000)) (.var 1 'a'))
          (.var 18446744073709551615 'x'))) := by
    decide +kernel
  rw [hproduct, Option.some.injEq] at hparse
  subst hparse
  exact ⟨havailable, hnames.note_eq⟩

namespace Calculator

/-- With `a` in the slot of `x`, the note of `x` names `a`, which is not in the text. -/
theorem note_of_x_names_a :
    let c := (initial .standard).run
      [.register 'a' 0, .frame (.edit ['x']), .frame (.click .evaluate)]
    c.session.isAvailable = true ∧
      c.session.steps.note = Equation.stagesNote ++ "\nVariables lues : " ++ "a" ∧
      'a' ∉ c.session.entry := by
  refine ⟨?_, ?_, ?_⟩ <;> decide +kernel

end Calculator

end FormulaCalc
