import FormulaCalc.Proofs.LetterHistory
import FormulaCalc.Proofs.Variables
import FormulaCalc.Registry
/-!
# Runs of changes of the registry

Whatever run of changes has made it, a table of variables is a finite map: a letter has the slot of
its last registration, unless it has been forgotten since, and what a change answers is the slot its
letter had just before.  The shared registry goes through the same tables as a plain one, and
reports each change that had an effect once (`Registry.afterAll_is_map`).

The slots after a run are described by the run alone (`LeavesAt`), so that the statement does not
depend on how the entries are stored.
-/

namespace FormulaCalc

namespace VarTable

/-- The letter that a change is about. -/
def Change.letter : Change → Char
  | .register letter _ => letter
  | .forget letter => letter

/-- What a change answers: the slot its letter had before, or why the name is refused. -/
def answer (table : VarTable) : Change → Except NameError (Option Nat)
  | .register letter slot => (table.register letter slot).map Prod.fst
  | .forget letter => .ok (table.forget letter).1

/--
Whether a run of changes leaves a letter with a slot: the last change about the letter has given it
this slot, or there is no such change and it had the slot at the start.
-/
def LeavesAt (table : VarTable) (changes : List Change) (letter : Char) (slot : Nat) : Prop :=
  (table.slotOf? letter = some slot ∧ ∀ change ∈ changes, change.letter ≠ letter) ∨
    ∃ before behind, changes = before ++ .register letter slot :: behind ∧
      letter.isAlpha ∧ ∀ change ∈ behind, change.letter ≠ letter

section Slots

variable {table : VarTable} {letter : Char} {slot : Nat}

/-- A letter has a slot after a change if the change gave it, or if it was about another letter. -/
theorem slotOf?_after_eq_some_iff
    {change : Change} :
    (table.after change).slotOf? letter = some slot ↔
      (table.slotOf? letter = some slot ∧ change.letter ≠ letter) ∨
        (change = .register letter slot ∧ letter.isAlpha) := by
  cases change with
  | register other given =>
      rw [slotOf?_after_register]
      split
      · next h =>
          obtain ⟨rfl, halpha⟩ := h
          simp [Change.letter, halpha]
      · next h =>
          constructor
          · intro hslot
            refine .inl ⟨hslot, fun hother => h ⟨hother.symm, ?_⟩⟩
            rw [show other = letter from hother]
            exact isAlpha_of_slotOf? hslot
          · rintro (⟨hslot, -⟩ | ⟨hchange, halpha⟩)
            · exact hslot
            · obtain ⟨rfl, -⟩ := Change.register.inj hchange
              exact absurd ⟨rfl, halpha⟩ h
  | forget other =>
      rw [after, slotOf?_forget]
      split
      · next h => simp [Change.letter, h]
      · next h => simp [Change.letter, Ne.symm h]

/-- The first change of a run can be carried out before. -/
theorem leavesAt_cons
    {change : Change} {changes : List Change} :
    table.LeavesAt (change :: changes) letter slot ↔
      (table.after change).LeavesAt changes letter slot := by
  simp only [LeavesAt, slotOf?_after_eq_some_iff]
  constructor
  · rintro (⟨hslot, hothers⟩ | ⟨before, behind, heq, halpha, hothers⟩)
    · obtain ⟨hne, hothers⟩ := List.forall_mem_cons.1 hothers
      exact .inl ⟨.inl ⟨hslot, hne⟩, hothers⟩
    · rcases List.append_eq_cons_iff.1 heq.symm with ⟨rfl, hhead⟩ | ⟨before, rfl, rfl⟩
      · obtain ⟨rfl, rfl⟩ := List.cons.inj hhead
        exact .inl ⟨.inr ⟨rfl, halpha⟩, hothers⟩
      · exact .inr ⟨before, behind, rfl, halpha, hothers⟩
  · rintro (⟨⟨hslot, hne⟩ | ⟨rfl, halpha⟩, hothers⟩ | ⟨before, behind, rfl, hrest⟩)
    · exact .inl ⟨hslot, List.forall_mem_cons.2 ⟨hne, hothers⟩⟩
    · exact .inr ⟨[], changes, rfl, halpha, hothers⟩
    · exact .inr ⟨change :: before, behind, rfl, hrest⟩

/-- **A letter has the slot of its last registration, unless it has been forgotten since.** -/
theorem slotOf?_afterAll_iff
    {changes : List Change} :
    (table.afterAll changes).slotOf? letter = some slot ↔ table.LeavesAt changes letter slot := by
  induction changes generalizing table with
  | nil =>
      simp [afterAll, LeavesAt]
  | cons change changes ih =>
      rw [leavesAt_cons, ← ih]
      rfl

end Slots

section Answers

/-- Only a name that is no letter is refused; otherwise the old slot is answered. -/
theorem answer_register
    (table : VarTable) (letter : Char) (slot : Nat) :
    table.answer (.register letter slot) =
      if letter.isAlpha then .ok (table.slotOf? letter) else .error (.notALetter letter) := by
  rw [answer, register]
  split <;> rfl

/-- A registration that is refused changes nothing. -/
theorem after_register_of_not_isAlpha
    (table : VarTable) {letter : Char} (slot : Nat)
    (h : ¬ letter.isAlpha) :
    table.after (.register letter slot) = table := by
  rw [after, register, dif_neg h]

theorem mem_entries_iff
    {table : VarTable} {letter : Char} {slot : Nat} :
    (letter, slot) ∈ table.entries ↔ table.slotOf? letter = some slot := by
  exact ⟨slotOf?_of_mem, mem_of_slotOf?⟩

end Answers

/-- What is reported of a change, given its answer: that it has set a slot or taken one away. -/
def Change.event? : Change → Except NameError (Option Nat) → Option Event
  | .register letter slot, .ok _ => some (.registered letter slot)
  | .forget letter, .ok (some slot) => some (.forgotten letter slot)
  | _, _ => none

/-- What is reported of a run of changes, oldest first. -/
def events (table : VarTable) : List Change → List Event
  | [] => []
  | change :: changes =>
    (change.event? (table.answer change)).toList ++ (table.after change).events changes

end VarTable

namespace Registry

open VarTable

/-- The registry after a change. -/
def after (registry : Registry) : Change → Registry
  | .register letter slot => (registry.register letter slot).2
  | .forget letter => (registry.forget letter).2

/-- What a change of the registry answers. -/
def answer (registry : Registry) : Change → Except NameError (Option Nat)
  | .register letter slot => (registry.register letter slot).1
  | .forget letter => .ok (registry.forget letter).1

/-- The registry after a run of changes. -/
def afterAll (registry : Registry) (changes : List Change) : Registry :=
  changes.foldl after registry

theorem answer_eq
    (registry : Registry) (change : Change) :
    registry.answer change = registry.table.answer change := by
  cases change with
  | register letter slot =>
      rw [answer, register, VarTable.answer]
      cases registry.table.register letter slot <;> rfl
  | forget letter =>
      rfl

/-- A change reports itself once if it had an effect. -/
theorem after_eq
    (registry : Registry) (change : Change) :
    registry.after change =
      ⟨registry.table.after change,
        registry.journal ++ (change.event? (registry.table.answer change)).toList⟩ := by
  cases change with
  | register letter slot =>
      rw [after, register, VarTable.after, VarTable.answer]
      cases registry.table.register letter slot with
      | ok found =>
          rfl
      | error error =>
          exact congrArg (Registry.mk _) (List.append_nil _).symm
  | forget letter =>
      rw [after, forget, VarTable.after, VarTable.answer, VarTable.forget]
      cases registry.table.slotOf? letter <;> rfl

/-- **The registry goes through the tables of a plain run and reports what had an effect.** -/
theorem afterAll_eq
    (registry : Registry) (changes : List Change) :
    registry.afterAll changes =
      ⟨registry.table.afterAll changes, registry.journal ++ registry.table.events changes⟩ := by
  induction changes generalizing registry with
  | nil =>
      exact congrArg (Registry.mk _) (List.append_nil _).symm
  | cons change changes ih =>
      have hstep :
          registry.afterAll (change :: changes) = (registry.after change).afterAll changes := rfl
      rw [hstep, ih, after_eq, events, List.append_assoc]
      rfl

/--
How a registry and its table behave as a finite map after a run of changes: `table` is what a plain
table has become, `registry` what the registry has.
-/
structure IsMap
    (start : Registry) (changes : List Change) (table : VarTable) (registry : Registry) :
    Prop where
  slotOf?_iff : ∀ letter slot, table.slotOf? letter = some slot ↔
    start.table.LeavesAt changes letter slot
  /-- A registration answers the slot of before, unless the name is refused. -/
  answer_register : ∀ letter slot, table.answer (.register letter slot) =
    if letter.isAlpha then .ok (table.slotOf? letter) else .error (.notALetter letter)
  /-- A name that is refused changes nothing. -/
  after_refused : ∀ letter slot, ¬ letter.isAlpha →
    table.after (.register letter slot) = table
  answer_forget : ∀ letter, table.answer (.forget letter) = .ok (table.slotOf? letter)
  sorted : (table.entries.map Prod.fst).Pairwise (· < ·)
  mem_entries_iff : ∀ letter slot, (letter, slot) ∈ table.entries ↔
    start.table.LeavesAt changes letter slot
  isAlpha : ∀ entry ∈ table.entries, entry.1.isAlpha
  size_eq : table.size = table.entries.length
  /-- A slot leads back to the first of its letters. -/
  letterOf?_iff : ∀ letter slot, table.letterOf? slot = some letter ↔
    start.table.LeavesAt changes letter slot ∧
      ∀ l, start.table.LeavesAt changes l slot → letter ≤ l
  table_eq : registry.table = table
  answer_eq : ∀ change, registry.answer change = table.answer change
  journal_eq : registry.journal = start.journal ++ start.table.events changes

/--
After any run of changes, from any table, a letter has the slot of its last registration unless it
has been forgotten since, or the slot it had at the start.  A registration answers the old slot and
is refused exactly if the name is no letter, which changes nothing; forgetting always answers the
old slot.  The letters are listed in strictly increasing order with their slots, and a slot leads
back to the first of its letters.  The registry goes through the same tables with the same answers
and has reported the changes that set or took away a slot, each once and in their order.
-/
theorem afterAll_is_map
    (start : Registry) (changes : List Change) :
    start.IsMap changes (start.table.afterAll changes) (start.afterAll changes) := by
  generalize htable : start.table.afterAll changes = table
  have hslots (letter : Char) (slot : Nat) :
      table.slotOf? letter = some slot ↔ start.table.LeavesAt changes letter slot := by
    rw [← htable]
    exact slotOf?_afterAll_iff
  have hregistry : start.afterAll changes = ⟨table, start.journal ++ start.table.events changes⟩ :=
    htable ▸ afterAll_eq start changes
  constructor
  case slotOf?_iff =>
    exact hslots
  case answer_register =>
    exact VarTable.answer_register table
  case after_refused =>
    exact fun letter slot => after_register_of_not_isAlpha table slot
  case answer_forget =>
    exact fun letter => rfl
  case sorted =>
    exact List.pairwise_map.2 table.sorted
  case mem_entries_iff =>
    intro letter slot
    rw [VarTable.mem_entries_iff]
    exact hslots letter slot
  case isAlpha =>
    exact table.isAlpha
  case size_eq =>
    rfl
  case letterOf?_iff =>
    intro letter slot
    simp only [VarTable.letterOf?_eq_some_iff, hslots]
  case table_eq =>
    rw [hregistry]
  case answer_eq =>
    intro change
    rw [Registry.answer_eq, hregistry]
  case journal_eq =>
    rw [hregistry]

end Registry

end FormulaCalc
