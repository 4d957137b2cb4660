import FormulaCalc.Expr.Eval
import FormulaCalc.Proofs.TableAgreement
/-!
# The variables of an expression

Between a text and its expression no variable is lost, invented or given another slot: read from
left to right, the variables of the expression are the letters of the text (`letters_of_parse?`),
each with the slot of its letter.  So the slots an expression reads are those of the letters of its
text, and no other entry of a vector has a part in its value (`variables_of_parse`).

From a slot the way back leads to the first letter of the alphabet that has it
(`letterOf?_eq_some_iff`).  This need not be a letter of the text.
-/

namespace FormulaCalc

namespace VarTable

section FirstLetters

variable {table : VarTable} {letter : Char} {slot : Nat}

theorem slotOf?_of_mem
    (h : (letter, slot) ∈ table.entries) :
    table.slotOf? letter = some slot := by
  obtain ⟨before, behind, hsplit⟩ := List.append_of_mem h
  have hsorted := table.sorted
  rw [hsplit] at hsorted
  refine List.lookup_eq_some_iff.2 ⟨before, behind, hsplit, fun entry hentry => ?_⟩
  have hlt := (List.pairwise_append.1 hsorted).2.2 entry hentry _ List.mem_cons_self
  rw [bne_iff_ne]
  rintro rfl
  exact Char.lt_irrefl _ hlt

/-- No letter with the slot stands in front of the one that a slot leads back to. -/
theorem letterOf?_le
    {l : Char}
    (h : table.letterOf? slot = some letter)
    (hl : table.slotOf? l = some slot) :
    letter ≤ l := by
  obtain ⟨entry, hfind, rfl⟩ := Option.map_eq_some_iff.1 h
  obtain ⟨-, before, behind, hsplit, hbefore⟩ := List.find?_eq_some_iff_append.1 hfind
  have hsorted := table.sorted
  have hmem := mem_of_slotOf? hl
  rw [hsplit] at hsorted hmem
  -- in front of the entry that was found are other slots, and behind it are later letters
  rcases List.mem_append.1 hmem with hmem | hmem
  · have hother := hbefore _ hmem
    simp at hother
  · rcases List.mem_cons.1 hmem with rfl | hmem
    · exact Char.le_refl _
    · have hlt := (List.pairwise_cons.1 (List.pairwise_append.1 hsorted).2.1).1 _ hmem
      exact Char.not_lt.1 fun hgt => Char.lt_irrefl _ (Char.lt_trans hlt hgt)

theorem slotOf?_of_letterOf?
    (h : table.letterOf? slot = some letter) :
    table.slotOf? letter = some slot := by
  obtain ⟨⟨l, s⟩, hfind, rfl⟩ := Option.map_eq_some_iff.1 h
  have hslot : s = slot := by
    simpa using List.find?_some hfind
  exact hslot ▸ slotOf?_of_mem (List.mem_of_find?_eq_some hfind)

theorem exists_letterOf?
    (h : table.slotOf? letter = some slot) :
    ∃ first, table.letterOf? slot = some first := by
  have hfound : (table.entries.find? fun entry => entry.2 = slot).isSome := by
    rw [List.find?_isSome]
    exact ⟨(letter, slot), mem_of_slotOf? h, by simp⟩
  obtain ⟨entry, hentry⟩ := Option.isSome_iff_exists.1 hfound
  exact ⟨entry.1, by rw [letterOf?, hentry, Option.map_some]⟩

/-- **A slot leads back to the first letter that has it.** -/
theorem letterOf?_eq_some_iff :
    table.letterOf? slot = some letter ↔
      table.slotOf? letter = some slot ∧
        ∀ l, table.slotOf? l = some slot → letter ≤ l := by
  constructor
  · intro h
    exact ⟨slotOf?_of_letterOf? h, fun l hl => letterOf?_le h hl⟩
  · rintro ⟨hletter, hfirst⟩
    obtain ⟨first, h⟩ := exists_letterOf? hletter
    have hle := letterOf?_le h hletter
    rw [h, Char.le_antisymm hle (hfirst first (slotOf?_of_letterOf? h))]

end FirstLetters

end VarTable

section Letters

/-- The characters of a text that are not common to all texts, from left to right. -/
def letters (text : List Char) : List Char :=
  text.filter (· ∉ commonChars)

theorem mem_letters_iff
    {c : Char} {text : List Char} :
    c ∈ letters text ↔ c ∈ text ∧ c ∉ commonChars := by
  simp [letters]

@[simp] theorem letters_append
    (u v : List Char) :
    letters (u ++ v) = letters u ++ letters v := by
  simp [letters]

theorem letters_cons_of_common
    {c : Char} (text : List Char)
    (h : c ∈ commonChars) :
    letters (c :: text) = letters text := by
  simp [letters, h]

theorem symbol_mem_commonChars
    (op : Operator) :
    op.symbol ∈ commonChars := by
  cases op <;> decide

@[simp] theorem letters_symbol_cons
    (op : Operator) (text : List Char) :
    letters (op.symbol :: text) = letters text := by
  exact letters_cons_of_common text (symbol_mem_commonChars op)

theorem letters_sign_cons
    {sign : Char} (text : List Char)
    (h : Token.isSign sign) :
    letters (sign :: text) = letters text := by
  refine letters_cons_of_common text ?_
  rcases isSign_iff.1 h with rfl | rfl <;> decide

@[simp] theorem letters_bracketed
    (text : List Char) :
    letters ('(' :: text ++ [')']) = letters text := by
  rw [List.cons_append, letters_cons_of_common _ (by decide), letters_append,
    letters_cons_of_common [] (by decide)]
  simp [letters]

@[simp] theorem letters_star_cons
    (text : List Char) :
    letters ('*' :: text) = letters text := by
  exact letters_cons_of_common text (by decide)

theorem letters_of_isNumeral
    {n : List Char}
    (h : IsNumeral n) :
    letters n = [] := by
  refine List.filter_eq_nil_iff.2 fun c hc => ?_
  have hcommon : c ∈ commonChars := by
    rcases isNumeralChar_iff.1 (h.chars c hc) with hdigit | rfl
    · exact mem_commonChars_of_isDigit hdigit
    · decide
  simpa using hcommon

theorem not_mem_commonChars_of_isAlpha
    {c : Char}
    (h : c.isAlpha) :
    c ∉ commonChars := by
  intro hc
  have hcommon : ∀ d ∈ commonChars, d.isAlpha = false := by
    simp [commonChars]
  rw [hcommon c hc] at h
  cases h

theorem letters_letter
    {table : VarTable} {c : Char} {slot : Nat}
    (h : table.slotOf? c = some slot) :
    letters [c] = [c] := by
  have hcommon := not_mem_commonChars_of_isAlpha (isAlpha_of_slotOf? h)
  simp [letters, hcommon]

end Letters

namespace Equation

variable {table : VarTable} {text : List Char} {e : Expr}

/-- The variables of a phrase are its letters, from left to right. -/
theorem letters_of_phrase
    {level : Option Level} {signed : Bool}
    (h : Phrase table level signed text e) :
    e.occurrences.map Prod.snd = letters text := by
  induction h with
  | numeral hn _ =>
      rw [letters_of_isNumeral hn]
      rfl
  | signedNumeral hsign hn _ =>
      rw [letters_sign_cons _ hsign, letters_of_isNumeral hn]
      rfl
  | letter hslot =>
      rw [letters_letter hslot]
      rfl
  | plusLetter hslot | minusLetter hslot =>
      rw [letters_sign_cons _ rfl, letters_letter hslot]
      rfl
  | bracketed _ ih =>
      rw [letters_bracketed, ih]
  | operand _ ih =>
      exact ih
  | chain _ _ ihu ihv =>
      rw [Expr.occurrences, List.map_append, ihu, ihv]
      simp

/-- Writing products out leaves the letters as they are. -/
theorem letters_of_starred
    {part : Validity.Part} {out : List Char}
    (h : ImplicitProduct.Starred table part text out) :
    letters out = letters text := by
  induction h with
  | atom | nothing =>
      rfl
  | bracketed _ ih =>
      rw [letters_bracketed, letters_bracketed, ih]
  | signed hsign _ _ ih =>
      simp [letters_sign_cons _ hsign, ih]
  | unsigned _ _ ihw ih | operator _ _ ihw ih | product _ _ _ ihw ih =>
      simp [ihw, ih]

/-- **The variables of an expression are the letters of its text, from left to right.** -/
theorem letters_of_parse?
    (h : parse? table text = some e) :
    e.occurrences.map Prod.snd = letters text := by
  obtain ⟨out, hout, hphrase⟩ := parse?_eq_some_iff.1 h
  rw [letters_of_phrase hphrase, letters_of_starred hout]

theorem slotOf?_of_parse?
    (h : parse? table text = some e) :
    ∀ found ∈ e.occurrences, table.slotOf? found.2 = some found.1 := by
  obtain ⟨out, -, hphrase⟩ := parse?_eq_some_iff.1 h
  exact slotOf?_of_phrase hphrase

theorem mem_letters_of_mem_occurrences
    {found : Nat × Char}
    (h : parse? table text = some e)
    (hfound : found ∈ e.occurrences) :
    found.2 ∈ letters text := by
  rw [← letters_of_parse? h]
  exact List.mem_map_of_mem hfound

theorem exists_occurrence
    {c : Char}
    (h : parse? table text = some e)
    (hc : c ∈ letters text) :
    ∃ slot, (slot, c) ∈ e.occurrences := by
  rw [← letters_of_parse? h] at hc
  obtain ⟨⟨slot, letter⟩, hfound, rfl⟩ := List.mem_map.1 hc
  exact ⟨slot, hfound⟩

/-- **The slots of an expression are those of the letters of its text.** -/
theorem mem_slots_iff_of_parse?
    {slot : Nat}
    (h : parse? table text = some e) :
    slot ∈ e.slots ↔ ∃ c ∈ text, table.slotOf? c = some slot := by
  rw [Expr.mem_slots]
  constructor
  · rintro ⟨c, hfound⟩
    have hc := mem_letters_of_mem_occurrences h hfound
    exact ⟨c, (mem_letters_iff.1 hc).1, slotOf?_of_parse? h _ hfound⟩
  · rintro ⟨c, hc, hslot⟩
    have hcommon := not_mem_commonChars_of_isAlpha (isAlpha_of_slotOf? hslot)
    obtain ⟨slot', hfound⟩ := exists_occurrence h (mem_letters_iff.2 ⟨hc, hcommon⟩)
    have hslot' := slotOf?_of_parse? h _ hfound
    rw [hslot, Option.some.injEq] at hslot'
    exact ⟨c, hslot' ▸ hfound⟩

end Equation

namespace Expr

variable {α : Type} [Arithmetic α]

/-- The entry of a vector at a slot, or zero where the vector has ended. -/
def entryAt (values : Array α) (slot : Nat) : α :=
  values[slot]?.getD Arithmetic.zero

/-- **An expression reads the entries at the slots of its variables only.** -/
theorem eval_congr
    {e : Expr} {values values' : Array α}
    (h : ∀ slot ∈ e.slots, entryAt values slot = entryAt values' slot) :
    e.eval values = e.eval values' := by
  simp only [mem_slots] at h
  induction e with
  | number value =>
      rfl
  | var slot letter =>
      exact h slot ⟨letter, by simp [occurrences]⟩
  | binary op left right ihl ihr =>
      have hleft := ihl fun slot ⟨letter, hmem⟩ => h slot ⟨letter, by simp [occurrences, hmem]⟩
      have hright := ihr fun slot ⟨letter, hmem⟩ => h slot ⟨letter, by simp [occurrences, hmem]⟩
      rw [eval, eval, hleft, hright]

end Expr

namespace Equation

/--
The variables of the expression of a text are the letters of the text, from left to right and each
with the slot it has in the table.  The slots the expression reads are listed in increasing order,
each once; they are the slots of the letters of the text, and each leads back to a letter.  Vectors
that agree on them, whatever their lengths, give the expression the same value.
-/
theorem variables_of_parse
    (table : VarTable) (text : List Char) (e : Expr)
    (h : parse? table text = some e) :
    e.occurrences.map Prod.snd = letters text ∧
      (∀ found ∈ e.occurrences, found.2 ∈ text ∧ table.slotOf? found.2 = some found.1) ∧
      (∀ c ∈ text, c ∉ commonChars → ∃ slot, (slot, c) ∈ e.occurrences) ∧
      e.slots.Pairwise (· < ·) ∧
      (∀ slot, slot ∈ e.slots ↔ ∃ c ∈ text, table.slotOf? c = some slot) ∧
      (∀ slot ∈ e.slots, ∃ c, table.letterOf? slot = some c ∧ table.slotOf? c = some slot) ∧
      ∀ (α : Type) [Arithmetic α] (values values' : Array α),
        (∀ slot ∈ e.slots, Expr.entryAt values slot = Expr.entryAt values' slot) →
          e.eval values = e.eval values' := by
  refine ⟨letters_of_parse? h, fun found hfound => ?_, fun c hc hcommon => ?_, e.slots_sorted,
    fun slot => mem_slots_iff_of_parse? h, fun slot hslot => ?_,
    fun α _ values values' => Expr.eval_congr⟩
  · have hletter := mem_letters_of_mem_occurrences h hfound
    exact ⟨(mem_letters_iff.1 hletter).1, slotOf?_of_parse? h found hfound⟩
  · exact exists_occurrence h (mem_letters_iff.2 ⟨hc, hcommon⟩)
  · obtain ⟨c, -, hc⟩ := (mem_slots_iff_of_parse? h).1 hslot
    obtain ⟨first, hfirst⟩ := VarTable.exists_letterOf? hc
    exact ⟨first, hfirst, VarTable.slotOf?_of_letterOf? hfirst⟩

/-- A table in which two letters share a slot, and another one lies far beyond all vectors. -/
def sharedTable : VarTable :=
  ⟨[('a', 1), ('b', 1), ('x', 18446744073709551615)], by decide, by decide⟩

/-- The expression of `-b(2a^x)`. -/
def sharedProduct : Expr :=
  .binary .mul (Expr.negation (.var 1 'b'))
    (.binary .mul (.number (.ofBits 0x4000000000000000))
      (.binary .pow (.var 1 'a') (.var 18446744073709551615 'x')))

/-- Two letters of one slot are both kept, and their slot is listed once. -/
theorem variables_of_sharedProduct :
    parse? sharedTable "-b(2a^x)".toList = some sharedProduct ∧
      letters "-b(2a^x)".toList = ['b', 'a', 'x'] ∧
      sharedProduct.slots = [1, 18446744073709551615] ∧
      sharedProduct.eval #[(1 : Float), 2] = sharedProduct.eval #[(3 : Float), 2, 5] := by
  have hparse : parse? sharedTable "-b(2a^x)".toList = some sharedProduct := by
    decide +kernel
  have hslots : sharedProduct.slots = [1, 18446744073709551615] := by
    decide
  obtain ⟨hletters, -, -, -, -, -, heval⟩ := variables_of_parse sharedTable _ _ hparse
  refine ⟨hparse, hletters.symm, hslots, heval Float _ _ ?_⟩
  simp [hslots, Expr.entryAt]

end Equation

end FormulaCalc
