import FormulaCalc.Text.Quoted
/-!
# Tables of variables

A table gives letters their slots, the positions of their values in a vector of values.  Several
letters may share a slot.  The letters are ASCII letters and stand in alphabetical order, each
once; both facts are part of the type.

A table is seen through `slotOf?`: `slotOf?_register` and `slotOf?_forget` say that each change
concerns one letter only.
-/

namespace FormulaCalc

/-- Letters with their slots, in strictly increasing order of the letters. -/
structure VarTable where
  entries : List (Char × Nat)
  sorted : entries.Pairwise (fun a b => a.1 < b.1)
  isAlpha : ∀ entry ∈ entries, entry.1.isAlpha
deriving DecidableEq

namespace VarTable

/-- Why a variable cannot be registered. -/
inductive NameError where
  | notALetter (name : Char)
deriving DecidableEq

/-- The wording of a refused name. -/
def NameError.message : NameError → String
  | notALetter name =>
    "nom de variable invalide: " ++ quoteChar name ++ " (une lettre ASCII est attendue)"

/-- The table without letters. -/
def empty : VarTable := ⟨[], .nil, nofun⟩

/-- The table a calculator starts with: `x`, `y` and `z` in the first three slots. -/
def initial : VarTable := ⟨[('x', 0), ('y', 1), ('z', 2)], by decide, by decide⟩

instance : Inhabited VarTable := ⟨initial⟩

/-- The slot of a letter. -/
def slotOf? (table : VarTable) (letter : Char) : Option Nat :=
  table.entries.lookup letter

/-- The alphabetically first letter of a slot. -/
def letterOf? (table : VarTable) (slot : Nat) : Option Char :=
  (table.entries.find? fun entry => entry.2 = slot).map Prod.fst

/-- Whether a character is a letter of the table. -/
def contains (table : VarTable) (letter : Char) : Bool :=
  (table.slotOf? letter).isSome

/-- The number of letters. -/
def size (table : VarTable) : Nat :=
  table.entries.length

/-- Whether the table has no letters. -/
def isEmpty (table : VarTable) : Bool :=
  table.entries.isEmpty

/-- Puts a letter at its place in alphabetical order, over its old slot if it had one. -/
def insertEntry (letter : Char) (slot : Nat) : List (Char × Nat) → List (Char × Nat)
  | [] => [(letter, slot)]
  | entry :: rest =>
    if letter < entry.1 then (letter, slot) :: entry :: rest
    else if letter = entry.1 then (letter, slot) :: rest
    else entry :: insertEntry letter slot rest

theorem mem_insertEntry {letter : Char} {slot : Nat} {entries : List (Char × Nat)}
    {entry : Char × Nat} (h : entry ∈ insertEntry letter slot entries) :
    entry = (letter, slot) ∨ entry ∈ entries := by
  induction entries with
  | nil => simpa [insertEntry] using h
  | cons head tail ih =>
    simp only [insertEntry] at h
    split at h
    · simpa using h
    · split at h
      · rcases List.mem_cons.1 h with h | h <;> simp [h]
      · rcases List.mem_cons.1 h with h | h
        · simp [h]
        · rcases ih h with h | h <;> simp [h]

theorem insertEntry_sorted (letter : Char) (slot : Nat) {entries : List (Char × Nat)}
    (h : entries.Pairwise (fun a b => a.1 < b.1)) :
    (insertEntry letter slot entries).Pairwise (fun a b => a.1 < b.1) := by
  induction entries with
  | nil => simp [insertEntry]
  | cons head tail ih =>
    have hhead := (List.pairwise_cons.1 h).1
    simp only [insertEntry]
    split
    · rename_i hlt
      refine List.pairwise_cons.2 ⟨fun entry hentry => ?_, h⟩
      rcases List.mem_cons.1 hentry with hentry | hentry
      · simpa [hentry] using hlt
      · exact Char.lt_trans hlt (hhead entry hentry)
    · split
      · rename_i heq
        exact List.pairwise_cons.2 ⟨fun entry hentry => heq ▸ hhead entry hentry, h.of_cons⟩
      · rename_i hnlt hne
        refine List.pairwise_cons.2 ⟨fun entry hentry => ?_, ih h.of_cons⟩
        rcases mem_insertEntry hentry with hentry | hentry
        · simp only [hentry]
          exact Char.not_le.1 fun hle => hne (Char.le_antisymm hle (Char.not_lt.1 hnlt))
        · exact hhead entry hentry

theorem lookup_cons_eq (l : Char) (entry : Char × Nat) (entries : List (Char × Nat)) :
    (entry :: entries).lookup l = if l = entry.1 then some entry.2 else entries.lookup l := by
  rw [List.lookup_cons]
  by_cases h : l = entry.1
  · rw [beq_iff_eq.2 h, if_pos h]
  · rw [beq_eq_false_iff_ne.2 h, if_neg h]

theorem lookup_insertEntry (l letter : Char) (slot : Nat) (entries : List (Char × Nat)) :
    (insertEntry letter slot entries).lookup l =
      if l = letter then some slot else entries.lookup l := by
  induction entries with
  | nil => rw [insertEntry, lookup_cons_eq]
  | cons head tail ih =>
    simp only [insertEntry]
    split
    · rw [lookup_cons_eq]
    · split
      · next heq =>
        rw [lookup_cons_eq, lookup_cons_eq, ← heq]
        split <;> rfl
      · next hne =>
        rw [lookup_cons_eq, lookup_cons_eq, ih]
        split
        · next h => rw [if_neg fun hl : l = letter => hne (hl ▸ h)]
        · rfl

theorem lookup_filter (l letter : Char) (entries : List (Char × Nat)) :
    (entries.filter fun entry => entry.1 ≠ letter).lookup l =
      if l = letter then none else entries.lookup l := by
  induction entries with
  | nil => simp
  | cons head tail ih =>
    by_cases hhead : head.1 = letter
    · rw [List.filter_cons_of_neg (by simpa using hhead), ih, lookup_cons_eq, hhead]
      split <;> rfl
    · rw [List.filter_cons_of_pos (by simpa using hhead), lookup_cons_eq, lookup_cons_eq, ih]
      split
      · next h => rw [if_neg fun hl : l = letter => hhead (h ▸ hl)]
      · rfl

/-- Gives a letter a slot, and returns the slot it had before. -/
def register (table : VarTable) (letter : Char) (slot : Nat) :
    Except NameError (Option Nat × VarTable) :=
  if h : letter.isAlpha then
    .ok (table.slotOf? letter,
      { entries := insertEntry letter slot table.entries
        sorted := insertEntry_sorted letter slot table.sorted
        isAlpha := fun _ hentry => (mem_insertEntry hentry).elim (· ▸ h) (table.isAlpha _) })
  else .error (.notALetter letter)

/-- Takes a letter out of the table, and returns the slot it had. -/
def forget (table : VarTable) (letter : Char) : Option Nat × VarTable :=
  (table.slotOf? letter,
    { entries := table.entries.filter fun entry => entry.1 ≠ letter
      sorted := table.sorted.filter _
      isAlpha := fun entry hentry => table.isAlpha entry (List.mem_filter.1 hentry |>.1) })

/-- Registering a letter changes the slot of this letter alone. -/
theorem slotOf?_register {table table' : VarTable} {letter : Char} {slot : Nat}
    {previous : Option Nat} (h : table.register letter slot = .ok (previous, table')) (l : Char) :
    table'.slotOf? l = if l = letter then some slot else table.slotOf? l := by
  simp only [register] at h
  split at h
  · cases h
    exact lookup_insertEntry l letter slot table.entries
  · cases h

/-- Forgetting a letter takes away the slot of this letter alone. -/
theorem slotOf?_forget (table : VarTable) (letter l : Char) :
    (table.forget letter).2.slotOf? l = if l = letter then none else table.slotOf? l :=
  lookup_filter l letter table.entries

theorem mem_of_slotOf? {table : VarTable} {letter : Char} {slot : Nat}
    (h : table.slotOf? letter = some slot) : (letter, slot) ∈ table.entries := by
  obtain ⟨before, behind, heq, _⟩ := List.lookup_eq_some_iff.1 h
  rw [heq]
  exact List.mem_append_right before List.mem_cons_self

/-- Every letter of the table is an ASCII letter. -/
theorem isAlpha_of_contains {table : VarTable} {letter : Char} (h : table.contains letter) :
    letter.isAlpha := by
  obtain ⟨slot, hslot⟩ := Option.isSome_iff_exists.1 h
  exact table.isAlpha _ (mem_of_slotOf? hslot)

end VarTable

end FormulaCalc
