import FormulaCalc.Proofs.TopLevel
/-!
# Counting depth

The partners of brackets and the walk that jumps over groups are a fast way of counting how many
brackets are open.  This module says what they compute in terms of that count alone: `depthBehind?`
goes through a text character by character and knows nothing but a number.

* On every text, balanced or not, the partners are those that a stack of open brackets finds from
  the left (`pairsByStack`), and two brackets are partners if the count between them goes from 0 to
  0 and never below (`closing?_eq_some_iff_depthBehind?`).
* On a slice in which the count does so, the brackets taken off are the layers around all of it
  (`EnclosedBy`), the walk finds the operators at depth 0 (`operatorsByDepth`), and the principal
  operator is the first one of the loosest level among them, a sign at the start apart
  (`IsTopOperator`).

`brackets_agree_with_depth` puts these together.
-/

namespace FormulaCalc

section Counting

/-- The number of open brackets behind a character; none if it closes one too many. -/
def stepDepth? (depth : Nat) (c : Char) : Option Nat :=
  if c = '(' then some (depth + 1)
  else if c = ')' then (if depth = 0 then none else some (depth - 1))
  else some depth

/-- The number of open brackets behind a text; none if a bracket is closed that is not open. -/
def depthBehind? (depth : Nat) (text : List Char) : Option Nat :=
  text.foldlM stepDepth? depth

/--
The brackets that a walk from the left pairs, keeping the positions of the open ones on a stack.
-/
def pairsByStack (opened : List Nat) (position : Nat) : List Char → List (Nat × Nat)
  | [] => []
  | c :: rest =>
      if c = '(' then pairsByStack (position :: opened) (position + 1) rest
      else if c = ')' then
        match opened with
        | [] => pairsByStack [] (position + 1) rest
        | innermost :: others =>
            (innermost, position) :: pairsByStack others (position + 1) rest
      else pairsByStack opened (position + 1) rest

/-- The operators that a walk character by character meets at depth 0, with their positions. -/
def operatorsByDepth (depth position : Nat) : List Char → List (Operator × Nat)
  | [] => []
  | c :: rest =>
      match stepDepth? depth c with
      | none => []
      | some next =>
          (if depth = 0 then (Operator.ofSymbol? c).toList.map (·, position) else []) ++
            operatorsByDepth next (position + 1) rest

/--
Whether a text consists of so many layers of brackets and a core in which they match: the first
bracket of each layer is closed by its last character.
-/
def EnclosedBy : Nat → List Char → Prop
  | 0, w => depthBehind? 0 w = some 0
  | layers + 1, w => ∃ inner, w = '(' :: inner ++ [')'] ∧ EnclosedBy layers inner

/-- Whether an operator stands at depth 0 of a text, other than as the sign that it starts with. -/
def IsTopOperator (w : List Char) (op : Operator) (k : Nat) : Prop :=
  w[k]? = some op.symbol ∧ depthBehind? 0 (w.take k) = some 0 ∧ ¬ (k = 0 ∧ op.level = .sum)

/--
Whether an operator is the first one of the loosest level among those at depth 0 of a text, other
than as the sign that it starts with.
-/
def IsLoosestOperator (w : List Char) (op : Operator) (k : Nat) : Prop :=
  IsTopOperator w op k ∧
    ∀ other l, IsTopOperator w other l →
      op.level.rank ≤ other.level.rank ∧ (other.level = op.level → k ≤ l)

variable {depth : Nat} {c : Char}

theorem stepDepth?_open
    (depth : Nat) :
    stepDepth? depth '(' = some (depth + 1) := by
  rfl

theorem stepDepth?_close
    (depth : Nat) :
    stepDepth? (depth + 1) ')' = some depth := by
  rfl

theorem stepDepth?_plain
    (depth : Nat)
    (hopen : c ≠ '(')
    (hclose : c ≠ ')') :
    stepDepth? depth c = some depth := by
  rw [stepDepth?, if_neg hopen, if_neg hclose]

theorem stepDepth?_symbol
    (depth : Nat) (op : Operator) :
    stepDepth? depth op.symbol = some depth := by
  obtain ⟨hopen, hclose⟩ := symbol_ne_brackets op
  exact stepDepth?_plain depth hopen hclose

theorem depthBehind?_cons
    (depth : Nat) (c : Char) (rest : List Char) :
    depthBehind? depth (c :: rest) = (stepDepth? depth c).bind (depthBehind? · rest) := by
  rfl

theorem depthBehind?_append
    (depth : Nat) (u v : List Char) :
    depthBehind? depth (u ++ v) = (depthBehind? depth u).bind (depthBehind? · v) := by
  exact List.foldlM_append

theorem depthBehind?_open
    (depth : Nat) (rest : List Char) :
    depthBehind? depth ('(' :: rest) = depthBehind? (depth + 1) rest := by
  rfl

theorem depthBehind?_close
    (depth : Nat) (rest : List Char) :
    depthBehind? (depth + 1) (')' :: rest) = depthBehind? depth rest := by
  rfl

theorem depthBehind?_plain
    (depth : Nat) (rest : List Char)
    (hopen : c ≠ '(')
    (hclose : c ≠ ')') :
    depthBehind? depth (c :: rest) = depthBehind? depth rest := by
  rw [depthBehind?_cons, stepDepth?_plain depth hopen hclose]
  rfl

/-- A balanced text leaves the count as it was, and can be counted from any depth. -/
theorem Balanced.depthBehind?_eq
    {w : List Char}
    (h : Balanced w)
    (depth : Nat) :
    depthBehind? depth w = some depth := by
  induction h generalizing depth with
  | nil =>
      rfl
  | @plain c w hopen hclose _ ih =>
      rw [depthBehind?_plain depth w hopen hclose, ih]
  | @group u w _ _ ihu ihw =>
      rw [List.cons_append, depthBehind?_open, depthBehind?_append, ihu, Option.bind_some,
        depthBehind?_close, ihw]

/-- Where the count goes below its start, the text up to there is balanced. -/
theorem exists_balanced_of_depthBehind?
    {depth final : Nat} {w : List Char}
    (h : depthBehind? (depth + 1) w = some final)
    (hle : final ≤ depth) :
    ∃ u v, w = u ++ ')' :: v ∧ Balanced u ∧ depthBehind? depth v = some final := by
  match w with
  | [] =>
      have hfinal : depth + 1 = final := Option.some.inj h
      omega
  | c :: rest =>
      by_cases hopen : c = '('
      · -- the bracket is closed first; the one that goes below the start comes behind that
        rw [hopen, depthBehind?_open] at h
        obtain ⟨u, behind, hrest, hu, hbehind⟩ := exists_balanced_of_depthBehind? h (by omega)
        obtain ⟨v, last, hv, hbalanced, hlast⟩ := exists_balanced_of_depthBehind? hbehind hle
        refine ⟨'(' :: u ++ ')' :: v, last, ?_, .group hu hbalanced, hlast⟩
        rw [hopen, hrest, hv]
        simp
      · by_cases hclose : c = ')'
        · rw [hclose, depthBehind?_close] at h
          exact ⟨[], rest, by rw [hclose]; rfl, .nil, h⟩
        · rw [depthBehind?_plain _ rest hopen hclose] at h
          obtain ⟨u, v, hrest, hu, hv⟩ := exists_balanced_of_depthBehind? h hle
          exact ⟨c :: u, v, by rw [hrest]; rfl, .plain hopen hclose hu, hv⟩
termination_by w.length
decreasing_by
  · simp
  · have := congrArg List.length hrest
    simp only [List.length_append, List.length_cons] at this ⊢
    omega
  · simp

theorem balanced_of_depthBehind?
    {w : List Char}
    (h : depthBehind? 0 w = some 0) :
    Balanced w := by
  match w with
  | [] =>
      exact .nil
  | c :: rest =>
      by_cases hopen : c = '('
      · rw [hopen, depthBehind?_open] at h
        obtain ⟨u, v, hrest, hu, hv⟩ := exists_balanced_of_depthBehind? h (Nat.le_refl 0)
        rw [hopen, hrest]
        exact .group hu (balanced_of_depthBehind? hv)
      · by_cases hclose : c = ')'
        · rw [hclose] at h
          cases h
        · rw [depthBehind?_plain 0 rest hopen hclose] at h
          exact .plain hopen hclose (balanced_of_depthBehind? h)
termination_by w.length
decreasing_by
  · have := congrArg List.length hrest
    simp only [List.length_append, List.length_cons] at this ⊢
    omega
  · simp

/-- The brackets of a text match exactly if the count goes from 0 to 0 and never below. -/
theorem balanced_iff_depthBehind?
    {w : List Char} :
    Balanced w ↔ depthBehind? 0 w = some 0 := by
  constructor
  · intro h
    exact h.depthBehind?_eq 0
  · intro h
    exact balanced_of_depthBehind? h

end Counting

section Stack

variable {i j : Nat}

theorem pairsByStack_open
    (opened : List Nat) (position : Nat) (rest : List Char) :
    pairsByStack opened position ('(' :: rest) =
      pairsByStack (position :: opened) (position + 1) rest := by
  cases opened <;> rfl

theorem pairsByStack_close
    (opened : List Nat) (position : Nat) (rest : List Char) :
    pairsByStack opened position (')' :: rest) =
      opened.head?.toList.map (·, position) ++
        pairsByStack opened.tail (position + 1) rest := by
  cases opened <;> rfl

theorem pairsByStack_plain
    {c : Char}
    (opened : List Nat) (position : Nat) (rest : List Char)
    (hopen : c ≠ '(')
    (hclose : c ≠ ')') :
    pairsByStack opened position (c :: rest) = pairsByStack opened (position + 1) rest := by
  cases opened <;> simp only [pairsByStack, if_neg hopen, if_neg hclose]

/-- The entries of a table, seen from its first position. -/
theorem exists_entry_cons_iff
    {position : Nat} {first : Option Nat} {entries : List (Option Nat)} :
    (∃ k, i = position + k ∧ (first :: entries)[k]? = some (some j)) ↔
      (i = position ∧ first = some j) ∨
        ∃ k, i = position + 1 + k ∧ entries[k]? = some (some j) := by
  constructor
  · rintro ⟨k, rfl, hk⟩
    cases k with
    | zero =>
        exact .inl ⟨rfl, Option.some.inj hk⟩
    | succ k =>
        exact .inr ⟨k, by omega, hk⟩
  · rintro (⟨rfl, rfl⟩ | ⟨k, rfl, hk⟩)
    · exact ⟨0, rfl, rfl⟩
    · exact ⟨k + 1, by omega, hk⟩

/--
The stack and the table of partners are two halves of one matching: the brackets on the stack take
the closing brackets that the rest of the text leaves free, the innermost one first, and the
brackets of the rest have their partners in the table.
-/
theorem mem_pairsByStack_iff
    (opened : List Nat) (position : Nat) (text : List Char) :
    (i, j) ∈ pairsByStack opened position text ↔
      (i, j) ∈ opened.zip (partners position text).2 ∨
        ∃ k, i = position + k ∧ (partners position text).1[k]? = some (some j) := by
  induction text generalizing opened position with
  | nil =>
      simp [pairsByStack, partners]
  | cons c rest ih =>
      by_cases hopen : c = '('
      · rw [hopen, partners_open, pairsByStack_open, ih, exists_entry_cons_iff]
        cases (partners (position + 1) rest).2 with
        | nil =>
            simp
        | cons closing pending =>
            simp [or_assoc, or_left_comm, eq_comm]
      · by_cases hclose : c = ')'
        · rw [hclose, partners_close, pairsByStack_close, List.mem_append, ih,
            exists_entry_cons_iff]
          cases opened with
          | nil =>
              simp
          | cons innermost others =>
              simp [or_assoc]
        · rw [partners_plain _ _ hopen hclose, pairsByStack_plain _ _ _ hopen hclose, ih,
            exists_entry_cons_iff]
          simp

end Stack

section Walk

variable {depth position : Nat}

theorem operatorsByDepth_cons
    (depth position : Nat) (c : Char) (rest : List Char) {next : Nat}
    (hstep : stepDepth? depth c = some next) :
    operatorsByDepth depth position (c :: rest) =
      (if depth = 0 then (Operator.ofSymbol? c).toList.map (·, position) else []) ++
        operatorsByDepth next (position + 1) rest := by
  rw [operatorsByDepth, hstep]

theorem operatorsByDepth_append
    {u : List Char} {next : Nat}
    (v : List Char)
    (h : depthBehind? depth u = some next) :
    operatorsByDepth depth position (u ++ v) =
      operatorsByDepth depth position u ++ operatorsByDepth next (position + u.length) v := by
  induction u generalizing depth position with
  | nil =>
      cases h
      rfl
  | cons c u ih =>
      rw [depthBehind?_cons] at h
      obtain ⟨middle, hstep, hrest⟩ := Option.bind_eq_some_iff.1 h
      rw [List.cons_append, operatorsByDepth_cons _ _ _ _ hstep,
        operatorsByDepth_cons _ _ _ _ hstep, ih hrest, List.append_assoc, List.length_cons,
        Nat.add_right_comm, Nat.add_assoc]

/-- Inside of brackets no operator is at depth 0. -/
theorem operatorsByDepth_eq_nil_of_balanced
    {w : List Char}
    (h : Balanced w)
    (depth position : Nat) :
    operatorsByDepth (depth + 1) position w = [] := by
  induction h generalizing depth position with
  | nil =>
      rfl
  | @plain c w hopen hclose _ ih =>
      rw [operatorsByDepth_cons _ _ _ _ (stepDepth?_plain _ hopen hclose), ih]
      rfl
  | @group u w hu _ ihu ihw =>
      rw [List.cons_append, operatorsByDepth_cons _ _ _ _ (stepDepth?_open _),
        operatorsByDepth_append _ (hu.depthBehind?_eq _), ihu,
        operatorsByDepth_cons _ _ _ _ (stepDepth?_close _), ihw]
      rfl

/-- The walk by depth goes over a group without finding anything. -/
theorem operatorsByDepth_group
    {u : List Char}
    (hu : Balanced u)
    (position : Nat) (w : List Char) :
    operatorsByDepth 0 position ('(' :: u ++ ')' :: w) =
      operatorsByDepth 0 (position + 1 + u.length + 1) w := by
  rw [List.cons_append, operatorsByDepth_cons _ _ _ _ (stepDepth?_open _),
    operatorsByDepth_append _ (hu.depthBehind?_eq _), operatorsByDepth_eq_nil_of_balanced hu,
    operatorsByDepth_cons _ _ _ _ (stepDepth?_close _)]
  rfl

theorem mem_operatorAt_iff
    {op : Operator} {p : Nat} {c : Char} :
    (op, p) ∈ (Operator.ofSymbol? c).toList.map (·, position) ↔
      p = position ∧ c = op.symbol := by
  constructor
  · intro h
    obtain ⟨other, hother, heq⟩ := List.mem_map.1 h
    obtain ⟨rfl, rfl⟩ := Prod.mk.inj heq
    exact ⟨rfl, symbol_of_ofSymbol? (Option.mem_toList.1 hother)⟩
  · rintro ⟨rfl, rfl⟩
    simp

/-- The walk by depth finds the operators before which the count is back at 0. -/
theorem mem_operatorsByDepth_iff
    {op : Operator} {p : Nat} {w : List Char} :
    (op, p) ∈ operatorsByDepth depth position w ↔
      ∃ k, p = position + k ∧ w[k]? = some op.symbol ∧
        depthBehind? depth (w.take k) = some 0 := by
  induction w generalizing depth position with
  | nil =>
      simp [operatorsByDepth]
  | cons c w ih =>
      -- the operator is the first character, or one of the rest
      have hcases :
          (∃ k, p = position + k ∧ (c :: w)[k]? = some op.symbol ∧
            depthBehind? depth ((c :: w).take k) = some 0) ↔
          (p = position ∧ c = op.symbol ∧ depth = 0) ∨
            ∃ k, p = position + 1 + k ∧ w[k]? = some op.symbol ∧
              (stepDepth? depth c).bind (depthBehind? · (w.take k)) = some 0 := by
        constructor
        · rintro ⟨k, rfl, hchar, hdepth⟩
          cases k with
          | zero =>
              exact .inl ⟨rfl, Option.some.inj hchar, Option.some.inj hdepth⟩
          | succ k =>
              exact .inr ⟨k, by omega, hchar, hdepth⟩
        · rintro (⟨rfl, rfl, rfl⟩ | ⟨k, rfl, hchar, hdepth⟩)
          · exact ⟨0, rfl, rfl, rfl⟩
          · exact ⟨k + 1, by omega, hchar, hdepth⟩
      rw [hcases]
      cases hstep : stepDepth? depth c with
      | none =>
          have hsymbol : c ≠ op.symbol := by
            rintro rfl
            rw [stepDepth?_symbol] at hstep
            cases hstep
          simp [operatorsByDepth, hstep, hsymbol]
      | some next =>
          rw [operatorsByDepth_cons _ _ _ _ hstep, List.mem_append, ih]
          simp only [Option.bind_some]
          refine or_congr ?_ Iff.rfl
          split
          · next hdepth =>
              rw [mem_operatorAt_iff]
              simp [hdepth]
          · next hdepth =>
              simp [hdepth]

theorem pairwise_operatorsByDepth
    (depth position : Nat) (w : List Char) :
    (operatorsByDepth depth position w).Pairwise (·.2 < ·.2) := by
  induction w generalizing depth position with
  | nil =>
      exact .nil
  | cons c w ih =>
      cases hstep : stepDepth? depth c with
      | none =>
          simp [operatorsByDepth, hstep]
      | some next =>
          rw [operatorsByDepth_cons _ _ _ _ hstep, List.pairwise_append]
          refine ⟨?_, ih next (position + 1), fun x hx y hy => ?_⟩
          · split
            · cases Operator.ofSymbol? c <;> simp
            · exact .nil
          · obtain ⟨k, hk, -, -⟩ := mem_operatorsByDepth_iff.1 (show (y.1, y.2) ∈ _ from hy)
            have hx : x.2 = position := by
              split at hx
              · obtain ⟨op, -, rfl⟩ := List.mem_map.1 hx
                rfl
              · cases hx
            omega

end Walk

namespace BracketedText

variable {text : List Char} {start stop : Nat}

/-- Two brackets are partners if the characters between them match in count. -/
theorem closing?_eq_some_iff_depthBehind?
    {i j : Nat} :
    (ofText text).closing? i = some j ↔
      text[i]? = some '(' ∧ text[j]? = some ')' ∧ i < j ∧
        depthBehind? 0 ((ofText text).slice (i + 1) j) = some 0 := by
  rw [closing?_eq_some_iff_balanced]
  constructor
  · rintro ⟨u, hu, rfl, hstands⟩
    obtain ⟨hopen, hinner, hclose⟩ := standsAt_bracketed_iff.1 hstands
    refine ⟨hopen, hclose, by omega, ?_⟩
    rw [slice_of_standsAt hinner]
    exact hu.depthBehind?_eq 0
  · rintro ⟨hopen, hclose, hlt, hdepth⟩
    obtain ⟨hj, -⟩ := List.getElem?_eq_some_iff.1 hclose
    have hlength : i + 1 + ((ofText text).slice (i + 1) j).length = j :=
      length_slice hlt (Nat.le_of_lt hj)
    refine ⟨_, balanced_of_depthBehind? hdepth, hlength.symm, ?_⟩
    refine standsAt_bracketed_iff.2 ⟨hopen, standsAt_slice text (i + 1) j, ?_⟩
    rw [hlength, hclose]

theorem closing?_eq_some_iff_mem_pairsByStack
    {i j : Nat} :
    (ofText text).closing? i = some j ↔ (i, j) ∈ pairsByStack [] 0 text := by
  rw [mem_pairsByStack_iff, closing?, Option.join_eq_some_iff]
  simp [ofText]

/-- Along a balanced word the walk that jumps finds what the walk by depth finds. -/
theorem operatorsFrom_balanced
    {i : Nat} {w : List Char}
    (h : Balanced w)
    (hstands : StandsAt text i w)
    (hle : i + w.length ≤ stop) :
    (ofText text).operatorsFrom stop i =
      operatorsByDepth 0 i w ++ (ofText text).operatorsFrom stop (i + w.length) := by
  induction h generalizing i with
  | nil =>
      rfl
  | @plain c w hopen hclose _ ih =>
      obtain ⟨hchar, hrest⟩ := standsAt_cons_iff.1 hstands
      have hplace : i + (c :: w).length = i + 1 + w.length := by
        rw [List.length_cons]
        omega
      rw [hplace] at hle ⊢
      rw [operatorsByDepth_cons _ _ _ _ (stepDepth?_plain 0 hopen hclose), if_pos rfl,
        List.append_assoc, ← ih hrest (by omega)]
      cases hop : Operator.ofSymbol? c with
      | none =>
          rw [operatorsFrom_plain (by omega) (by rw [chars_ofText, hchar]) hopen hop]
          rfl
      | some op =>
          obtain rfl := symbol_of_ofSymbol? hop
          rw [operatorsFrom_operator (by omega) (by rw [chars_ofText, hchar])]
          rfl
  | @group u w hu _ _ ihw =>
      rw [length_group] at hle
      obtain ⟨hgroup, hbehind⟩ := standsAt_group_iff.1 hstands
      have hclosing := closing?_eq_some_iff_balanced.2 ⟨u, hu, rfl, hgroup⟩
      have hchar := (brackets_of_closing? hclosing).1
      have hend : i + 1 + u.length + 1 + w.length = i + ('(' :: u ++ ')' :: w).length := by
        rw [length_group]
        omega
      rw [operatorsFrom_group (by omega) (by rw [chars_ofText, hchar]) hclosing,
        operatorsByDepth_group hu, ihw hbehind (by omega), hend]

section Slices

variable {w : List Char}

/-- The operators of a slice are those of the walk, but for a sign at its start. -/
theorem mem_topOperators_iff_mem_operatorsFrom
    {op : Operator} {p : Nat} :
    (op, p) ∈ (ofText text).topOperators start stop ↔
      (op, p) ∈ (ofText text).operatorsFrom stop start ∧ ¬ (p = start ∧ op.level = .sum) := by
  by_cases hsign : (ofText text).hasSignAt start
  · rw [topOperators_of_sign hsign]
    obtain ⟨c, hchar, hc⟩ := hasSignAt_ofText_iff.1 hsign
    obtain ⟨sign, hof, hlevel⟩ := ofSymbol?_of_isSign hc
    obtain rfl := symbol_of_ofSymbol? hof
    by_cases hlt : start < stop
    · rw [operatorsFrom_operator hlt (by rw [chars_ofText, hchar]), List.mem_cons]
      constructor
      · intro h
        have hbounds := operatorsFrom_bounds h
        dsimp only at hbounds
        exact ⟨.inr h, fun ⟨heq, _⟩ => by omega⟩
      · rintro ⟨heq | h, hnot⟩
        · obtain ⟨rfl, rfl⟩ := Prod.mk.inj heq
          exact absurd ⟨rfl, hlevel⟩ hnot
        · exact h
    · rw [operatorsFrom_of_le (by omega), operatorsFrom_of_le (by omega)]
      simp
  · rw [topOperators_of_no_sign (by simpa using hsign)]
    refine ⟨fun h => ⟨h, ?_⟩, fun h => h.1⟩
    rintro ⟨rfl, hlevel⟩
    obtain ⟨before, after, hfound⟩ := List.append_of_mem h
    obtain ⟨-, -, hchar⟩ := operatorsFrom_split hfound
    refine hsign (hasSignAt_ofText_iff.2 ⟨op.symbol, by rw [← chars_ofText, hchar], ?_⟩)
    cases op <;> first | rfl | cases hlevel

theorem enclosedBy_zero
    (h : Balanced w) :
    EnclosedBy 0 w := by
  exact h.depthBehind?_eq 0

theorem balanced_of_enclosedBy
    {layers : Nat}
    (h : EnclosedBy layers w) :
    Balanced w := by
  induction layers generalizing w with
  | zero =>
      exact balanced_of_depthBehind? h
  | succ layers ih =>
      obtain ⟨inner, rfl, hinner⟩ := h
      exact (ih hinner).bracketed

variable (hbalanced : Balanced w) (hstands : StandsAt text start w) (hend : start + w.length = stop)

include hbalanced hstands hend

/-- Exactly the layers around a slice are taken off. -/
theorem exists_stripOuter_eq :
    ∃ n, (ofText text).stripOuter start stop = (start + n, stop - n) ∧
      ∀ layers, EnclosedBy layers w ↔ layers ≤ n := by
  fun_induction stripOuter (ofText text) start stop generalizing w with
  | case1 start stop h ih =>
      obtain ⟨hlt, hclosing⟩ := h
      obtain ⟨u, hu, hstop, hgroup⟩ := closing?_eq_some_iff_balanced.1 hclosing
      have hw : w = '(' :: u ++ [')'] := by
        refine eq_of_standsAt hstands hgroup ?_
        rw [length_bracketed]
        omega
      obtain ⟨-, hinner, -⟩ := standsAt_bracketed_iff.1 hgroup
      obtain ⟨n, hstrip, hlayers⟩ := ih hu hinner (by omega)
      refine ⟨n + 1, ?_, fun layers => ?_⟩
      · rw [hstrip]
        congr 1 <;> omega
      · cases layers with
        | zero =>
            exact iff_of_true (enclosedBy_zero hbalanced) (Nat.zero_le _)
        | succ layers =>
            rw [Nat.succ_le_succ_iff, ← hlayers, EnclosedBy, hw]
            simp
  | case2 start stop hbare =>
      refine ⟨0, rfl, fun layers => ?_⟩
      cases layers with
      | zero =>
          exact iff_of_true (enclosedBy_zero hbalanced) (Nat.zero_le _)
      | succ layers =>
          refine ⟨fun h => absurd ?_ hbare, fun h => absurd h (Nat.not_succ_le_zero layers)⟩
          obtain ⟨inner, rfl, hinner⟩ := h
          rw [length_bracketed] at hend
          refine ⟨by omega, closing?_eq_some_iff_balanced.2 ⟨inner, ?_, by omega, hstands⟩⟩
          exact balanced_of_enclosedBy hinner

theorem operatorsFrom_eq_operatorsByDepth :
    (ofText text).operatorsFrom stop start = operatorsByDepth 0 start w := by
  rw [operatorsFrom_balanced hbalanced hstands (Nat.le_of_eq hend), hend,
    operatorsFrom_of_le (Nat.le_refl stop), List.append_nil]

/-- The operators of a slice are those that a count finds at depth 0, but for a leading sign. -/
theorem mem_topOperators_iff
    {op : Operator} {p : Nat} :
    (op, p) ∈ (ofText text).topOperators start stop ↔
      ∃ k, p = start + k ∧ IsTopOperator w op k := by
  rw [mem_topOperators_iff_mem_operatorsFrom,
    operatorsFrom_eq_operatorsByDepth hbalanced hstands hend, mem_operatorsByDepth_iff]
  constructor
  · rintro ⟨⟨k, rfl, hchar, hdepth⟩, hsign⟩
    exact ⟨k, rfl, hchar, hdepth, fun ⟨hk, hlevel⟩ => hsign ⟨by omega, hlevel⟩⟩
  · rintro ⟨k, rfl, hchar, hdepth, hsign⟩
    exact ⟨⟨k, rfl, hchar, hdepth⟩, fun ⟨hk, hlevel⟩ => hsign ⟨by omega, hlevel⟩⟩

theorem pairwise_topOperators :
    ((ofText text).topOperators start stop).Pairwise (·.2 < ·.2) := by
  obtain ⟨hidden, hhidden, -⟩ := exists_hidden_sign text start stop
  have hpairwise := pairwise_operatorsByDepth 0 start w
  rw [← operatorsFrom_eq_operatorsByDepth hbalanced hstands hend, hhidden] at hpairwise
  exact (List.pairwise_append.1 hpairwise).2.1

theorem loosest_of_principal?
    {op : Operator} {p : Nat}
    (h : (ofText text).principal? start stop = some (op, p)) :
    ∃ k, p = start + k ∧ IsLoosestOperator w op k := by
  have hmem := mem_topOperators_of_principal? h
  obtain ⟨k, rfl, htop⟩ := (mem_topOperators_iff hbalanced hstands hend).1 hmem
  refine ⟨k, rfl, htop, fun other l hother => ?_⟩
  obtain ⟨before, after, hfound, hbefore, hafter⟩ := principal?_eq_some_iff.1 h
  have hsorted := pairwise_topOperators hbalanced hstands hend
  have hl := (mem_topOperators_iff hbalanced hstands hend).2 ⟨l, rfl, hother⟩
  rw [hfound] at hsorted hl
  rcases List.mem_append.1 hl with hl | hl
  · -- in front of the principal operator all others bind more tightly
    have hlt := hbefore _ hl
    refine ⟨Nat.le_of_lt hlt, fun hlevel => ?_⟩
    rw [← hlevel] at hlt
    exact absurd hlt (Nat.lt_irrefl _)
  · rcases List.mem_cons.1 hl with heq | hl
    · obtain ⟨rfl, hk⟩ := Prod.mk.inj heq
      exact ⟨Nat.le_refl _, fun _ => by omega⟩
    · have hlt := (List.pairwise_cons.1 (List.pairwise_append.1 hsorted).2.1).1 _ hl
      dsimp only at hlt
      exact ⟨hafter _ hl, fun _ => by omega⟩

/-- The principal operator is the first one of the loosest level that a count finds at depth 0. -/
theorem principal?_eq_some_iff_loosest
    {op : Operator} {p : Nat} :
    (ofText text).principal? start stop = some (op, p) ↔
      ∃ k, p = start + k ∧ IsLoosestOperator w op k := by
  constructor
  · intro h
    exact loosest_of_principal? hbalanced hstands hend h
  · rintro ⟨k, rfl, htop, hleast⟩
    have hmem := (mem_topOperators_iff hbalanced hstands hend).2 ⟨k, rfl, htop⟩
    cases hfound : (ofText text).principal? start stop with
    | none =>
        rw [principal?_eq_none_iff.1 hfound] at hmem
        cases hmem
    | some found =>
        obtain ⟨other, q⟩ := found
        obtain ⟨l, rfl, hother, hleast'⟩ := loosest_of_principal? hbalanced hstands hend hfound
        -- each of the two is as loose as the other, and as far to the left
        obtain ⟨hrank, hposition⟩ := hleast other l hother
        obtain ⟨hrank', hposition'⟩ := hleast' op k htop
        have hlevel := level_eq_of_rank_eq (Nat.le_antisymm hrank' hrank)
        obtain rfl : l = k :=
          Nat.le_antisymm (hposition' hlevel.symm) (hposition hlevel)
        have hsymbol := hother.1.symm.trans htop.1
        rw [operator_eq_of_symbol_eq (Option.some.inj hsymbol)]

theorem principal?_eq_none_iff_no_top :
    (ofText text).principal? start stop = none ↔ ∀ op k, ¬ IsTopOperator w op k := by
  rw [principal?_eq_none_iff, List.eq_nil_iff_forall_not_mem]
  constructor
  · intro h op k htop
    exact h _ ((mem_topOperators_iff hbalanced hstands hend).2 ⟨k, rfl, htop⟩)
  · rintro h ⟨op, p⟩ hmem
    obtain ⟨k, -, htop⟩ := (mem_topOperators_iff hbalanced hstands hend).1 hmem
    exact h op k htop

end Slices

/--
The partners and the walks over groups agree with counting depth: partners on every text, layers
and principal operators on every slice in which the brackets match by count.
-/
theorem brackets_agree_with_depth
    (text : List Char) :
    (∀ i j,
      ((ofText text).closing? i = some j ↔ (i, j) ∈ pairsByStack [] 0 text) ∧
      ((ofText text).closing? i = some j ↔
        text[i]? = some '(' ∧ text[j]? = some ')' ∧ i < j ∧
          depthBehind? 0 ((ofText text).slice (i + 1) j) = some 0)) ∧
    ∀ start stop, start ≤ stop → stop ≤ text.length →
      depthBehind? 0 ((ofText text).slice start stop) = some 0 →
      (∃ n, (ofText text).stripOuter start stop = (start + n, stop - n) ∧
        ∀ layers, EnclosedBy layers ((ofText text).slice start stop) ↔ layers ≤ n) ∧
      (ofText text).operatorsFrom stop start =
        operatorsByDepth 0 start ((ofText text).slice start stop) ∧
      (∀ op p, (ofText text).principal? start stop = some (op, p) ↔
        ∃ k, p = start + k ∧ IsLoosestOperator ((ofText text).slice start stop) op k) ∧
      ((ofText text).principal? start stop = none ↔
        ∀ op k, ¬ IsTopOperator ((ofText text).slice start stop) op k) := by
  refine ⟨fun i j => ?_, fun start stop hle hlength hdepth => ?_⟩
  · exact ⟨closing?_eq_some_iff_mem_pairsByStack, closing?_eq_some_iff_depthBehind?⟩
  · have hbalanced := balanced_of_depthBehind? hdepth
    have hstands := standsAt_slice text start stop
    have hend := length_slice hle hlength
    exact ⟨exists_stripOuter_eq hbalanced hstands hend,
      operatorsFrom_eq_operatorsByDepth hbalanced hstands hend,
      fun _ _ => principal?_eq_some_iff_loosest hbalanced hstands hend,
      principal?_eq_none_iff_no_top hbalanced hstands hend⟩

/-- A slice that matches inside of a text that does not. -/
theorem brackets_agree_with_depth_unbalanced :
    depthBehind? 0 ((ofText ")((-x*(y+z)^2))(".toList).slice 3 13) = some 0 ∧
      (ofText ")((-x*(y+z)^2))(".toList).operatorsFrom 13 3 =
        [(.sub, 3), (.mul, 5), (.pow, 11)] := by
  have hdepth : depthBehind? 0 ((ofText ")((-x*(y+z)^2))(".toList).slice 3 13) = some 0 := by
    rfl
  have hscan := ((brackets_agree_with_depth ")((-x*(y+z)^2))(".toList).2 3 13
    (by decide) (by decide) hdepth).2.1
  exact ⟨hdepth, hscan.trans rfl⟩

end BracketedText

end FormulaCalc
