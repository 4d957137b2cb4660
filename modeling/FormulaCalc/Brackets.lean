import FormulaCalc.Expr.Basic
/-!
# Matched brackets and top-level operators

A `BracketedText` is a text in which every opening bracket knows the position of the bracket that
closes it, if one does.  With these partners known, the brackets around a slice `[start, stop)` are
taken off in one step each, and the search for the operators at the top level of a slice jumps over
bracketed groups.

A slice is split at its principal operator: the first one of the loosest level that occurs.  A sign
at the start of the slice is no operator.
-/

namespace FormulaCalc

/--
The partners of the opening brackets of a text whose first character has the given position, and
the positions of the closing brackets that close none of them, in increasing order.
-/
def partners (position : Nat) : List Char → List (Option Nat) × List Nat
  | [] => ([], [])
  | c :: rest =>
    match c, partners (position + 1) rest with
    | '(', (table, closing :: pending) => (some closing :: table, pending)
    | ')', (table, pending) => (none :: table, position :: pending)
    | _, (table, pending) => (none :: table, pending)

theorem partners_gt
    (position : Nat) (text : List Char) :
    (∀ closing ∈ (partners position text).2, position ≤ closing) ∧
      ∀ i closing, (partners position text).1[i]? = some (some closing) →
        position + i < closing := by
  induction text generalizing position with
  | nil => simp [partners]
  | cons c rest ih =>
    obtain ⟨hpending, htable⟩ := ih (position + 1)
    simp only [partners]
    split <;> rename_i heq <;> simp only [heq] at hpending htable
    · refine ⟨fun j hj => ?_, fun i j hij => ?_⟩
      · have := hpending j (List.mem_cons_of_mem _ hj)
        omega
      · cases i with
        | zero =>
          have := hpending _ List.mem_cons_self
          simp only [List.getElem?_cons_zero, Option.some.injEq] at hij
          omega
        | succ i =>
          have := htable i j (by simpa using hij)
          omega
    · refine ⟨fun j hj => ?_, fun i j hij => ?_⟩
      · rcases List.mem_cons.1 hj with rfl | hj
        · exact Nat.le_refl _
        · have := hpending j hj
          omega
      · cases i with
        | zero => simp at hij
        | succ i =>
          have := htable i j (by simpa using hij)
          omega
    · refine ⟨fun j hj => ?_, fun i j hij => ?_⟩
      · have := hpending j hj
        omega
      · cases i with
        | zero => simp at hij
        | succ i =>
          have := htable i j (by simpa using hij)
          omega

/-- A text with the positions of the partners of its opening brackets. -/
structure BracketedText where
  chars : Array Char
  partner : Array (Option Nat)
  lt_of_partner : ∀ i j : Nat, partner[i]? = some (some j) → i < j

namespace BracketedText

/-- A text with its brackets matched. -/
def ofText (text : List Char) : BracketedText where
  chars := text.toArray
  partner := (partners 0 text).1.toArray
  lt_of_partner i j h := by
    have := (partners_gt 0 text).2 i j (by simpa using h)
    omega

/-- The position of the bracket that closes the opening bracket at a position. -/
def closing? (t : BracketedText) (position : Nat) : Option Nat :=
  (t.partner[position]?).join

theorem lt_of_closing? {t : BracketedText} {i j : Nat} (h : t.closing? i = some j) : i < j :=
  t.lt_of_partner i j (Option.join_eq_some_iff.1 h)

/-- The characters of a slice. -/
def slice (t : BracketedText) (start stop : Nat) : List Char :=
  (t.chars.extract start stop).toList

/-- The slice without the pairs of brackets that enclose all of it. -/
def stripOuter (t : BracketedText) (start stop : Nat) : Nat × Nat :=
  if _h : start + 1 < stop ∧ t.closing? start = some (stop - 1) then
    t.stripOuter (start + 1) (stop - 1)
  else (start, stop)
termination_by stop - start

theorem stripOuter_bounds
    (t : BracketedText) (start stop : Nat) :
    start ≤ (t.stripOuter start stop).1 ∧ (t.stripOuter start stop).2 ≤ stop := by
  fun_induction stripOuter t start stop with
  | case1 start stop h ih => omega
  | case2 start stop => simp

/-- The operators at the top level between two positions, with their positions. -/
def operatorsFrom (t : BracketedText) (stop position : Nat) : List (Operator × Nat) :=
  if _h : position < stop then
    match t.chars[position]? with
    | some '(' =>
      match _h : t.closing? position with
      | some closing => t.operatorsFrom stop (closing + 1)
      | none => []
    | some c =>
      match Operator.ofSymbol? c with
      | some op => (op, position) :: t.operatorsFrom stop (position + 1)
      | none => t.operatorsFrom stop (position + 1)
    | none => []
  else []
termination_by stop - position
decreasing_by
  · have := lt_of_closing? ‹_›
    omega
  · omega
  · omega

theorem operatorsFrom_bounds
    {t : BracketedText} {stop position : Nat} {found : Operator × Nat}
    (h : found ∈ t.operatorsFrom stop position) :
    position ≤ found.2 ∧ found.2 < stop := by
  fun_induction operatorsFrom t stop position with
  | case1 position _ _ closing hclosing ih =>
    have := lt_of_closing? hclosing
    have := ih h
    omega
  | case3 position hlt c _ _ op hop ih =>
    rcases List.mem_cons.1 h with rfl | h
    · exact ⟨Nat.le_refl _, hlt⟩
    · have := ih h
      omega
  | case4 position hlt c _ _ _ ih =>
    have := ih h
    omega
  | _ => simp at h

/-- Whether the character at a position can be a sign. -/
def hasSignAt (t : BracketedText) (position : Nat) : Bool :=
  t.chars[position]? = some '+' || t.chars[position]? = some '-'

/-- The operators at the top level of a slice, with their positions. -/
def topOperators (t : BracketedText) (start stop : Nat) : List (Operator × Nat) :=
  t.operatorsFrom stop (if t.hasSignAt start then start + 1 else start)

/-- The first operator of the loosest level that a slice has at its top level. -/
def principal? (t : BracketedText) (start stop : Nat) : Option (Operator × Nat) :=
  [Level.sum, Level.product, Level.power].findSome? fun level =>
    (t.topOperators start stop).find? fun found => found.1.level = level

theorem principal?_bounds
    {t : BracketedText} {start stop : Nat} {found : Operator × Nat}
    (h : t.principal? start stop = some found) :
    start ≤ found.2 ∧ found.2 < stop := by
  obtain ⟨level, _, hfind⟩ := List.exists_of_findSome?_eq_some h
  have := operatorsFrom_bounds (List.mem_of_find?_eq_some hfind)
  split at this <;> omega

end BracketedText

end FormulaCalc
