import FormulaCalc.Proofs.KnownCharacters
import FormulaCalc.Proofs.Parsing
/-!
# Letters that come and go

A table is changed by registering and forgetting letters.  Which letters a run of changes leaves in
the table can be told from the run alone: those that were registered, at the start or by a change,
and have not been forgotten since (`contains_afterAll_iff`).

A text that has any other character in it, wherever it stands, is refused by everything that reads
texts (`refuses_after_changes`).
-/

namespace FormulaCalc

namespace VarTable

/-- A change of a table. -/
inductive Change where
  | register (letter : Char) (slot : Nat)
  | forget (letter : Char)
deriving DecidableEq

/-- The table after a change; it stays as it is where a name is refused. -/
def after (table : VarTable) : Change → VarTable
  | .register letter slot =>
    match table.register letter slot with
    | .ok (_, changed) => changed
    | .error _ => table
  | .forget letter => (table.forget letter).2

/-- The table after a run of changes. -/
def afterAll (table : VarTable) (changes : List Change) : VarTable :=
  changes.foldl after table

/--
Whether a run of changes leaves a letter registered: it was so at the start and has not been
forgotten, or it has been registered and not been forgotten since.
-/
def LeavesRegistered (table : VarTable) (changes : List Change) (letter : Char) : Prop :=
  (table.contains letter ∧ .forget letter ∉ changes) ∨
    ∃ before slot behind, changes = before ++ .register letter slot :: behind ∧
      letter.isAlpha ∧ .forget letter ∉ behind

section Changes

variable {table : VarTable} {letter c : Char} {slot : Nat}

theorem slotOf?_after_register :
    (table.after (.register letter slot)).slotOf? c =
      if c = letter ∧ letter.isAlpha then some slot else table.slotOf? c := by
  by_cases halpha : letter.isAlpha
  · obtain ⟨previous, changed, hregister⟩ :
        ∃ previous changed, table.register letter slot = .ok (previous, changed) := by
      rw [register, dif_pos halpha]
      exact ⟨_, _, rfl⟩
    simp only [after, hregister, slotOf?_register hregister, halpha, and_true]
  · rw [after, register, dif_neg halpha]
    simp only [halpha, Bool.false_eq_true, and_false, if_false]

theorem contains_after_register :
    (table.after (.register letter slot)).contains c ↔
      (c = letter ∧ letter.isAlpha) ∨ table.contains c := by
  rw [contains, contains, slotOf?_after_register]
  split
  · next h => simp [h]
  · next h => simp [h]

theorem contains_after_forget :
    (table.after (.forget letter)).contains c ↔ c ≠ letter ∧ table.contains c := by
  rw [contains, contains, after, slotOf?_forget]
  split
  · next h => simp [h]
  · next h => simp [h]

/-- The first change of a run can be carried out before. -/
theorem leavesRegistered_cons
    {change : Change} {changes : List Change} :
    table.LeavesRegistered (change :: changes) c ↔
      (table.after change).LeavesRegistered changes c := by
  simp only [LeavesRegistered]
  cases change with
  | register letter slot =>
      rw [contains_after_register]
      constructor
      · rintro (⟨hcontains, hforget⟩ | ⟨before, slot', behind, heq, halpha, hforget⟩)
        · exact .inl ⟨.inr hcontains, fun hmem => hforget (List.mem_cons_of_mem _ hmem)⟩
        · rcases List.append_eq_cons_iff.1 heq.symm with ⟨rfl, hhead⟩ | ⟨before, rfl, rfl⟩
          · obtain ⟨hregister, rfl⟩ := List.cons.inj hhead
            obtain ⟨rfl, rfl⟩ := Change.register.inj hregister
            exact .inl ⟨.inl ⟨rfl, halpha⟩, hforget⟩
          · exact .inr ⟨before, slot', behind, rfl, halpha, hforget⟩
      · rintro (⟨⟨rfl, halpha⟩ | hcontains, hforget⟩ | ⟨before, slot', behind, rfl, hrest⟩)
        · exact .inr ⟨[], slot, changes, rfl, halpha, hforget⟩
        · exact .inl ⟨hcontains, by simpa using hforget⟩
        · exact .inr ⟨.register letter slot :: before, slot', behind, rfl, hrest⟩
  | forget letter =>
      rw [contains_after_forget]
      constructor
      · rintro (⟨hcontains, hforget⟩ | ⟨before, slot, behind, heq, halpha, hforget⟩)
        · simp only [List.mem_cons, Change.forget.injEq, not_or] at hforget
          exact .inl ⟨⟨hforget.1, hcontains⟩, hforget.2⟩
        · rcases List.append_eq_cons_iff.1 heq.symm with ⟨rfl, hhead⟩ | ⟨before, rfl, rfl⟩
          · cases hhead
          · exact .inr ⟨before, slot, behind, rfl, halpha, hforget⟩
      · rintro (⟨⟨hne, hcontains⟩, hforget⟩ | ⟨before, slot, behind, rfl, hrest⟩)
        · exact .inl ⟨hcontains, by simp [hne, hforget]⟩
        · exact .inr ⟨.forget letter :: before, slot, behind, rfl, hrest⟩

/-- **The letters of a table after a run of changes are those the run leaves registered.** -/
theorem contains_afterAll_iff
    {changes : List Change} :
    (table.afterAll changes).contains c ↔ table.LeavesRegistered changes c := by
  induction changes generalizing table with
  | nil =>
      simp [afterAll, LeavesRegistered]
  | cons change changes ih =>
      rw [leavesRegistered_cons, ← ih]
      rfl

/-- A letter is not left registered if it is forgotten and not registered again. -/
theorem not_leavesRegistered_of_forget
    {before behind : List Change}
    (h : ∀ slot, .register c slot ∉ behind) :
    ¬ table.LeavesRegistered (before ++ .forget c :: behind) c := by
  have hrun : table.afterAll (before ++ .forget c :: behind) =
      ((table.afterAll before).after (.forget c)).afterAll behind := by
    rw [afterAll, List.foldl_append, List.foldl_cons]
    rfl
  rw [← contains_afterAll_iff, hrun, contains_afterAll_iff]
  rintro (⟨hcontains, -⟩ | ⟨_, slot, _, rfl, -⟩)
  · exact (contains_after_forget.1 hcontains).1 rfl
  · exact h slot (List.mem_append_right _ List.mem_cons_self)

end Changes

end VarTable

namespace Equation

open Validity

/-- Whether a text is refused: it is not valid, has no expression, and its listing breaks off. -/
def Refuses (table : VarTable) (text : List Char) : Prop :=
  isValid table text = false ∧ parse? table text = none ∧ ['?'] <:+ Token.listing table text

variable {table : VarTable} {text : List Char} {c : Char}

theorem listing_of_unread
    (h : Token.unread table text ≠ []) :
    ['?'] <:+ Token.listing table text := by
  have hpieces : Token.pieces table text = (Token.tokens table text).map Token.text ++ [['?']] := by
    rw [Token.pieces, if_neg (by simpa using h)]
  rw [Token.listing, hpieces]
  generalize (Token.tokens table text).map Token.text = pieces
  induction pieces with
  | nil =>
      exact List.suffix_rfl
  | cons piece pieces ih =>
      obtain ⟨front, hfront⟩ := ih
      refine ⟨piece ++ ' ' :: front, ?_⟩
      rw [List.cons_append, List.intercalate_cons_of_ne_nil (by simp), ← hfront]
      simp

theorem refuses_of_unknown
    (hmem : c ∈ text)
    (hunknown : ¬ IsKnown table c) :
    Refuses table text := by
  have hvalid : isValid table text = false := by
    rw [Bool.eq_false_iff]
    intro haccepts
    exact hunknown (isKnown_of_wellFormed (group_of_accepts haccepts) c hmem)
  have hunread := unread_ne_nil_of_unknown hmem hunknown
  exact ⟨hvalid, parse?_eq_none_iff.2 hvalid, listing_of_unread hunread⟩

theorem isValid_letter
    (h : table.contains c) :
    isValid table [c] = true := by
  have hgroup : WellFormed table .group ([c] ++ []) := .unsigned (.atom (.letter h)) .nothing
  exact accepts_of_group hgroup

/--
A text is refused if some character of it is neither common nor a letter that the changes of the
table leave registered.  So a letter that has been forgotten makes every text fail in which it
occurs, whatever happens to other letters, until it is registered again.
-/
theorem refuses_after_changes
    (start : VarTable) (text : List Char) (c : Char)
    (hmem : c ∈ text)
    (hcommon : c ∉ commonChars) :
    (∀ changes, ¬ start.LeavesRegistered changes c → Refuses (start.afterAll changes) text) ∧
      (∀ before behind, (∀ slot, .register c slot ∉ behind) →
        Refuses (start.afterAll (before ++ .forget c :: behind)) text) ∧
      ∀ before slot behind, c.isAlpha → .forget c ∉ behind →
        isValid (start.afterAll (before ++ .register c slot :: behind)) [c] = true := by
  have hrefuses (changes : List VarTable.Change) (hnot : ¬ start.LeavesRegistered changes c) :
      Refuses (start.afterAll changes) text := by
    refine refuses_of_unknown hmem fun hknown => ?_
    have hcontains := (mem_commonChars_or_contains hknown).resolve_left hcommon
    exact hnot (VarTable.contains_afterAll_iff.1 hcontains)
  refine ⟨hrefuses, fun before behind hbehind => ?_, fun before slot behind halpha hforget => ?_⟩
  · exact hrefuses _ (VarTable.not_leavesRegistered_of_forget hbehind)
  · refine isValid_letter (VarTable.contains_afterAll_iff.2 ?_)
    exact .inr ⟨before, slot, behind, rfl, halpha, hforget⟩

/-- A letter deep in a text is forgotten while another one comes and goes. -/
theorem refuses_after_forgetting_x :
    Refuses (VarTable.initial.afterAll [.register 'w' 3, .forget 'x', .register 'w' 4, .forget 'y'])
        "2*(z-(-x^.5))".toList ∧
      isValid (VarTable.initial.afterAll [.forget 'x', .register 'x' 7, .forget 'y']) ['x'] =
        true := by
  obtain ⟨-, hforget, hregister⟩ :=
    refuses_after_changes .initial "2*(z-(-x^.5))".toList 'x' (by decide) (by decide)
  constructor
  · exact hforget [.register 'w' 3] [.register 'w' 4, .forget 'y'] (by simp)
  · exact hregister [.forget 'x'] 7 [.forget 'y'] rfl (by decide)

end Equation

end FormulaCalc
