import FormulaCalc.Proofs.Leaves
/-!
# The slices that are built

The builder walks a text by positions, and jumps from opening brackets to their partners, which were
found once for the whole text.  It is safe because no slice it receives cuts a pair of brackets in
two: a bracket in the slice is closed in the slice, or else nowhere (`SafeSlice`).  The whole text
is such a slice; so are the inside of a pair of brackets that encloses a slice, and both halves of
a slice that is cut at an operator outside of all groups.  None of this needs the brackets of the
text to match.

From this invariant it follows that a builder which looks before every step, and may give up, never
does so (`checkedBuild?_eq`): it finds every character, every partner and every slice it asks for,
and nests no deeper than the text is long.  The results are put together in `builds_safely`.
-/

namespace FormulaCalc

namespace BracketedText

/-- Slices inside the text that no pair of brackets leaves to the right. -/
structure SafeSlice (t : BracketedText) (start stop : Nat) : Prop where
  le : start ≤ stop
  le_size : stop ≤ t.chars.size
  closing_lt : ∀ i < stop, start ≤ i → ∀ j ∈ t.closing? i, j < stop

theorem safeSlice_iff
    {t : BracketedText} {start stop : Nat} :
    t.SafeSlice start stop ↔
      start ≤ stop ∧ stop ≤ t.chars.size ∧
        ∀ i < stop, start ≤ i → ∀ j ∈ t.closing? i, j < stop := by
  constructor
  · intro h
    exact ⟨h.le, h.le_size, h.closing_lt⟩
  · rintro ⟨hle, hsize, hclosing⟩
    exact ⟨hle, hsize, hclosing⟩

instance
    (t : BracketedText) (start stop : Nat) :
    Decidable (t.SafeSlice start stop) :=
  decidable_of_iff _ safeSlice_iff.symm

/-- The slices that the builder receives, the right half of one even if it fails on the left. -/
inductive Receives (t : BracketedText) : Nat → Nat → Prop
  | whole : Receives t 0 t.chars.size
  | left {start stop first last position : Nat} {op : Operator} :
      Receives t start stop →
      t.stripOuter start stop = (first, last) →
      t.principal? first last = some (op, position) →
      Receives t first position
  | right {start stop first last position : Nat} {op : Operator} :
      Receives t start stop →
      t.stripOuter start stop = (first, last) →
      t.principal? first last = some (op, position) →
      Receives t (position + 1) last

section Tables

variable {text : List Char}

@[simp] theorem size_chars_ofText
    (text : List Char) :
    (ofText text).chars.size = text.length := by
  simp [ofText]

theorem length_partners
    (position : Nat) (text : List Char) :
    (partners position text).1.length = text.length := by
  induction text generalizing position with
  | nil =>
      rfl
  | cons c rest ih =>
      by_cases hopen : c = '('
      · rw [hopen, partners_open, List.length_cons, List.length_cons, ih]
      · by_cases hclose : c = ')'
        · rw [hclose, partners_close, List.length_cons, List.length_cons, ih]
        · rw [partners_plain _ _ hopen hclose, List.length_cons, List.length_cons, ih]

/-- Every position of the text has an entry in the table of partners. -/
theorem exists_partner
    {i : Nat}
    (h : i < text.length) :
    (ofText text).partner[i]? = some ((ofText text).closing? i) := by
  have hsize : i < (ofText text).partner.size := by
    simpa [ofText, length_partners] using h
  rw [closing?, Array.getElem?_eq_getElem hsize]
  rfl

theorem exists_char
    {i : Nat}
    (h : i < text.length) :
    ∃ c, (ofText text).chars[i]? = some c ∧ text[i]? = some c := by
  have hchar := List.getElem?_eq_getElem h
  exact ⟨_, (chars_ofText text i).trans hchar, hchar⟩

theorem lt_length_of_closing?
    {i j : Nat}
    (h : (ofText text).closing? i = some j) :
    j < text.length := by
  obtain ⟨hlt, -⟩ := List.getElem?_eq_some_iff.1 (brackets_of_closing? h).2
  exact hlt

end Tables

section Invariant

variable {text : List Char} {start stop position : Nat} {op : Operator}

theorem safeSlice_whole
    (text : List Char) :
    (ofText text).SafeSlice 0 text.length := by
  exact ⟨Nat.zero_le _, Nat.le_of_eq (size_chars_ofText text).symm,
    fun i _ _ j hj => lt_length_of_closing? hj⟩

/-- What stands between the brackets around a slice is a safe slice. -/
theorem SafeSlice.inside
    (h : (ofText text).SafeSlice start stop)
    (hlt : start + 1 < stop)
    (hclosing : (ofText text).closing? start = some (stop - 1)) :
    (ofText text).SafeSlice (start + 1) (stop - 1) := by
  have hsize := h.le_size
  refine ⟨by omega, by omega, fun i hi hle j hj => ?_⟩
  exact closing?_lt_of_closing? hclosing hj (by omega) hi

theorem SafeSlice.stripped
    (h : (ofText text).SafeSlice start stop) :
    (ofText text).SafeSlice ((ofText text).stripOuter start stop).1
      ((ofText text).stripOuter start stop).2 := by
  fun_induction stripOuter (ofText text) start stop with
  | case1 start stop henclosed ih =>
      exact ih (h.inside henclosed.1 henclosed.2)
  | case2 start stop _ =>
      exact h

/-- No group that stands before an operator at the top level reaches beyond it. -/
theorem closing?_lt_of_mem_operatorsFrom
    {i j k : Nat}
    (hmem : (op, position) ∈ (ofText text).operatorsFrom stop i)
    (hle : i ≤ k)
    (hlt : k < position)
    (hj : (ofText text).closing? k = some j) :
    j < position := by
  fun_induction operatorsFrom (ofText text) stop i with
  | case1 i _ _ closing hclosing ih =>
      have hbounds : closing + 1 ≤ position ∧ position < stop := operatorsFrom_bounds hmem
      -- the walk jumps over the group, which holds the partners of all brackets in it
      rcases Nat.lt_trichotomy k closing with hk | rfl | hk
      · by_cases hki : k = i
        · rw [hki, hclosing] at hj
          have hj := Option.some.inj hj
          omega
        · have hnested := closing?_lt_of_closing? hclosing hj (by omega) hk
          omega
      · have hlast := (brackets_of_closing? hclosing).2
        rw [(brackets_of_closing? hj).1] at hlast
        cases hlast
      · exact ih hmem hk
  | case3 i _ c hopen hchar other hother ih =>
      rcases List.mem_cons.1 hmem with hfirst | hmem
      · obtain ⟨-, rfl⟩ := Prod.mk.inj hfirst
        omega
      · rw [chars_ofText] at hchar
        have hne := ne_of_closing? hj hchar hopen
        exact ih hmem (by omega)
  | case4 i _ c hopen hchar _ ih =>
      rw [chars_ofText] at hchar
      have hne := ne_of_closing? hj hchar hopen
      exact ih hmem (by omega)
  | _ =>
      simp at hmem

/-- **Both halves of a safe slice that is cut at its principal operator are safe.** -/
theorem SafeSlice.halves
    (h : (ofText text).SafeSlice start stop)
    (hprincipal : (ofText text).principal? start stop = some (op, position)) :
    (ofText text).SafeSlice start position ∧ (ofText text).SafeSlice (position + 1) stop := by
  obtain ⟨hle, hlt⟩ : start ≤ position ∧ position < stop := principal?_bounds hprincipal
  have hsize := h.le_size
  have hmem := mem_operatorsFrom_of_mem_topOperators (mem_topOperators_of_principal? hprincipal)
  constructor
  · exact ⟨hle, by omega, fun i hi hstart j hj =>
      closing?_lt_of_mem_operatorsFrom hmem hstart hi hj⟩
  · exact ⟨by omega, hsize, fun i hi hstart j hj => h.closing_lt i hi (by omega) j hj⟩

/-- **Every slice that the builder receives is safe.** -/
theorem safeSlice_of_receives
    (h : (ofText text).Receives start stop) :
    (ofText text).SafeSlice start stop := by
  induction h with
  | whole =>
      rw [size_chars_ofText]
      exact safeSlice_whole text
  | left _ hstrip hprincipal ih =>
      have hinner := ih.stripped
      rw [hstrip] at hinner
      exact (hinner.halves hprincipal).1
  | right _ hstrip hprincipal ih =>
      have hinner := ih.stripped
      rw [hstrip] at hinner
      exact (hinner.halves hprincipal).2

end Invariant

section Checked

/-- One less, unless that is below zero. -/
def checkedPred? : Nat → Option Nat
  | 0 => none
  | n + 1 => some n

/-- Takes brackets off, but gives up out of range, below zero, and after so many rounds. -/
def checkedStrip? (t : BracketedText) : Nat → Nat → Nat → Option (Nat × Nat)
  | 0, _, _ => none
  | rounds + 1, start, stop =>
    if start + 1 < stop then do
      let c ← t.chars[start]?
      let partner ← t.partner[start]?
      let last ← checkedPred? stop
      if c = '(' ∧ partner = some last then t.checkedStrip? rounds (start + 1) last
      else some (start, stop)
    else some (start, stop)

/-- Collects the operators at the top level, but gives up out of range and after so many steps. -/
def checkedOperators? (t : BracketedText) (stop : Nat) :
    Nat → Nat → Option (List (Operator × Nat))
  | 0, _ => none
  | steps + 1, position =>
    if position < stop then do
      let c ← t.chars[position]?
      if c = '(' then
        match ← t.partner[position]? with
        | some closing => t.checkedOperators? stop steps (closing + 1)
        | none => some []
      else
        let behind ← t.checkedOperators? stop steps (position + 1)
        match Operator.ofSymbol? c with
        | some op => some ((op, position) :: behind)
        | none => some behind
    else some []

/-- Looks for the principal operator of a slice, but gives up out of range. -/
def checkedPrincipal? (t : BracketedText) (start stop : Nat) : Option (Option (Operator × Nat)) := do
  let first ← t.chars[start]?
  let found ← t.checkedOperators? stop (t.chars.size + 1)
    (if Token.isSign first then start + 1 else start)
  return [Level.sum, Level.product, Level.power].findSome? fun level =>
    found.find? fun x => x.1.level = level

/-- Cuts a slice out of the text if it lies inside. -/
def checkedSlice? (t : BracketedText) (start stop : Nat) : Option (List Char) :=
  if start ≤ stop ∧ stop ≤ t.chars.size then some (t.slice start stop) else none

variable {text : List Char} {start stop : Nat}

theorem checkedStrip?_eq
    {rounds : Nat}
    (hstop : stop ≤ text.length)
    (hrounds : stop - start < rounds) :
    (ofText text).checkedStrip? rounds start stop = some ((ofText text).stripOuter start stop) := by
  induction rounds generalizing start stop with
  | zero =>
      omega
  | succ rounds ih =>
      rw [checkedStrip?]
      by_cases hlt : start + 1 < stop
      · obtain ⟨last, rfl⟩ := Nat.exists_eq_succ_of_ne_zero (Nat.ne_zero_of_lt hlt)
        obtain ⟨c, hchar, htext⟩ := exists_char (by omega : start < text.length)
        have hpartner := exists_partner (by omega : start < text.length)
        rw [if_pos hlt, hchar, hpartner]
        simp only [checkedPred?, Option.bind_eq_bind, Option.bind_some]
        by_cases hclosing : (ofText text).closing? start = some last
        · have hopen : c = '(' := by
            rw [(brackets_of_closing? hclosing).1] at htext
            exact (Option.some.inj htext).symm
          rw [if_pos ⟨hopen, hclosing⟩, stripOuter_of_enclosed hlt hclosing]
          exact ih (by omega) (by omega)
        · rw [if_neg fun h => hclosing h.2, stripOuter_of_bare fun h => hclosing h.2]
      · rw [if_neg hlt, stripOuter_of_bare fun h => hlt h.1]

theorem checkedOperators?_eq
    {steps i : Nat}
    (hstop : stop ≤ text.length)
    (hsteps : stop - i < steps) :
    (ofText text).checkedOperators? stop steps i = some ((ofText text).operatorsFrom stop i) := by
  induction steps generalizing i with
  | zero =>
      omega
  | succ steps ih =>
      rw [checkedOperators?]
      by_cases hlt : i < stop
      · obtain ⟨c, hchar, -⟩ := exists_char (by omega : i < text.length)
        have hpartner := exists_partner (by omega : i < text.length)
        rw [if_pos hlt, hchar]
        simp only [Option.bind_eq_bind, Option.bind_some]
        by_cases hopen : c = '('
        · rw [if_pos hopen, hpartner]
          rw [hopen] at hchar
          cases hclosing : (ofText text).closing? i with
          | none =>
              rw [operatorsFrom_unclosed hchar hclosing]
              rfl
          | some closing =>
              have hgt := lt_of_closing? hclosing
              rw [operatorsFrom_group hlt hchar hclosing]
              exact ih (by omega)
        · rw [if_neg hopen, ih (by omega)]
          cases hop : Operator.ofSymbol? c with
          | none =>
              rw [operatorsFrom_plain hlt hchar hopen hop]
              rfl
          | some op =>
              rw [symbol_of_ofSymbol? hop] at hchar
              rw [operatorsFrom_operator hlt hchar]
              rfl
      · rw [if_neg hlt, operatorsFrom_of_le (by omega)]

theorem checkedPrincipal?_eq
    (hstop : stop ≤ text.length)
    (hlt : start < stop) :
    (ofText text).checkedPrincipal? start stop = some ((ofText text).principal? start stop) := by
  obtain ⟨c, hchar, htext⟩ := exists_char (by omega : start < text.length)
  have hsign : (ofText text).hasSignAt start = Token.isSign c := by
    simp [hasSignAt, hchar, Token.isSign]
  have hsteps (i : Nat) : stop - i < (ofText text).chars.size + 1 := by
    rw [size_chars_ofText]
    omega
  rw [checkedPrincipal?, hchar]
  simp only [Option.bind_eq_bind, Option.bind_some, checkedOperators?_eq hstop (hsteps _)]
  rw [principal?, topOperators, hsign]
  rfl

theorem checkedSlice?_eq
    (hle : start ≤ stop)
    (hstop : stop ≤ text.length) :
    (ofText text).checkedSlice? start stop = some ((ofText text).slice start stop) := by
  rw [checkedSlice?, size_chars_ofText, if_pos ⟨hle, hstop⟩]

end Checked

end BracketedText

namespace Expr

open BracketedText

/-- Builds a slice, but gives up where it is not safe, out of range, and below so many calls. -/
def checkedBuild? (table : VarTable) (t : BracketedText) :
    Nat → Nat → Nat → Option (Except BuildError Expr)
  | 0, _, _ => none
  | depth + 1, start, stop =>
    if t.SafeSlice start stop then do
      let inner ← t.checkedStrip? (t.chars.size + 1) start stop
      if inner.2 ≤ inner.1 then some (.error (.missingOperand inner.1 inner.2))
      else
        match ← t.checkedPrincipal? inner.1 inner.2 with
        | none => (t.checkedSlice? inner.1 inner.2).map (leaf table)
        | some (op, position) =>
          match ← checkedBuild? table t depth inner.1 position with
          | .error error => some (.error error)
          | .ok left =>
            (checkedBuild? table t depth (position + 1) inner.2).map (Except.map (.binary op left))
    else none

section Safety

variable {table : VarTable} {text : List Char} {start stop : Nat}

/-- **Building a safe slice finds everything it looks for.** -/
theorem checkedBuild?_eq
    {depth : Nat}
    (h : (ofText text).SafeSlice start stop)
    (hdepth : stop - start < depth) :
    checkedBuild? table (ofText text) depth start stop =
      some (buildSlice table (ofText text) start stop) := by
  induction depth generalizing start stop with
  | zero =>
      omega
  | succ depth ih =>
      have hsize := h.le_size
      have hrounds : stop - start < (ofText text).chars.size + 1 := by
        omega
      rw [size_chars_ofText] at hsize
      obtain ⟨hstart, hstop⟩ := stripOuter_bounds (ofText text) start stop
      have hinner := h.stripped
      rw [checkedBuild?, if_pos h, checkedStrip?_eq hsize hrounds, buildSlice_eq_buildBare]
      simp only [Option.bind_eq_bind, Option.bind_some]
      generalize (ofText text).stripOuter start stop = inner at *
      by_cases hempty : inner.2 ≤ inner.1
      · rw [if_pos hempty, buildBare, if_pos hempty]
      · have hlt : inner.1 < inner.2 := by
          omega
        rw [if_neg hempty, checkedPrincipal?_eq (by omega) hlt]
        cases hprincipal : (ofText text).principal? inner.1 inner.2 with
        | none =>
            have hslice := checkedSlice?_eq hinner.le (Nat.le_trans hstop hsize)
            rw [buildBare_leaf hlt (principal?_eq_none_iff.1 hprincipal)]
            simp only [Option.bind_some, hslice, Option.map_some]
        | some found =>
            obtain ⟨op, position⟩ := found
            obtain ⟨hleft, hright⟩ := hinner.halves hprincipal
            obtain ⟨hle, hposition⟩ : inner.1 ≤ position ∧ position < inner.2 :=
              principal?_bounds hprincipal
            rw [buildBare_split hlt hprincipal]
            simp only [Option.bind_some, ih hleft (by omega), ih hright (by omega)]
            cases buildSlice table (ofText text) inner.1 position with
            | error error =>
                rfl
            | ok left =>
                cases buildSlice table (ofText text) (position + 1) inner.2 <;> rfl

/-- The checks are not idle: where a bracket has no entry in the table, the builder gives up. -/
example :
    checkedBuild? .initial ⟨#['(', 'x'], #[], by simp⟩ 3 0 2 = none := by
  decide

/-- A missing operand is reported at one place of the text. -/
theorem bounds_of_missingOperand
    {start stop first last : Nat}
    (h : (ofText text).SafeSlice start stop)
    (herror : buildSlice table (ofText text) start stop = .error (.missingOperand first last)) :
    first = last ∧ last ≤ text.length := by
  obtain ⟨hstart, hstop⟩ := stripOuter_bounds (ofText text) start stop
  have hinner := h.stripped
  rw [buildSlice_eq_buildBare] at herror
  generalize (ofText text).stripOuter start stop = inner at *
  by_cases hempty : inner.2 ≤ inner.1
  · rw [buildBare, if_pos hempty] at herror
    obtain ⟨rfl, rfl⟩ := BuildError.missingOperand.inj (Except.error.inj herror)
    have hsize := hinner.le_size
    rw [size_chars_ofText] at hsize
    exact ⟨Nat.le_antisymm hinner.le hempty, hsize⟩
  · have hlt := Nat.lt_of_not_le hempty
    cases hprincipal : (ofText text).principal? inner.1 inner.2 with
    | none =>
        rw [buildBare_leaf hlt (principal?_eq_none_iff.1 hprincipal)] at herror
        rcases leaf_error_cases herror with hinvalid | ⟨c, hunknown⟩
        · cases hinvalid
        · cases hunknown
    | some found =>
        obtain ⟨op, position⟩ := found
        obtain ⟨hleft, hright⟩ := hinner.halves hprincipal
        obtain ⟨hle, hposition⟩ : inner.1 ≤ position ∧ position < inner.2 :=
          principal?_bounds hprincipal
        rcases error_of_split hlt hprincipal herror with herror | herror
        · exact bounds_of_missingOperand hleft herror
        · exact bounds_of_missingOperand hright herror
termination_by stop - start

/-- What makes building a text safe. -/
structure BuildsSafely (table : VarTable) (text : List Char) : Prop where
  bounds : ∀ start stop, (ofText text).Receives start stop → start ≤ stop ∧ stop ≤ text.length
  /-- An opening bracket in a slice is closed in the slice, or nowhere in the text. -/
  closed : ∀ start stop, (ofText text).Receives start stop →
    ∀ i, start ≤ i → i < stop → text[i]? = some '(' →
      (∃ j, (ofText text).closing? i = some j ∧ i < j ∧ j < stop) ∨
        (ofText text).closing? i = none
  /-- Both halves of a slice are shorter than the slice. -/
  shorter : ∀ start stop first last op position,
    (ofText text).stripOuter start stop = (first, last) →
    (ofText text).principal? first last = some (op, position) →
      position - first < stop - start ∧ last - (position + 1) < stop - start
  /-- No check fails, and the calls nest no deeper than the text is long. -/
  checked : checkedBuild? table (ofText text) (text.length + 1) 0 text.length =
    some (build table text)
  missingOperand : ∀ start stop, build table text = .error (.missingOperand start stop) →
    start = stop ∧ stop ≤ text.length

/--
Whatever the brackets of a text, the slices that the builder receives lie inside it and cut no pair
of brackets in two, and both halves of a slice are shorter than the slice.  So a builder that
checks every slice, every access and every subtraction, and limits its depth by the length of the
text, returns what the builder returns.  A missing operand is reported at one place of the text.
-/
theorem builds_safely
    (table : VarTable) (text : List Char) :
    BuildsSafely table text := by
  constructor
  case bounds =>
    intro start stop hreceives
    have hsafe := safeSlice_of_receives hreceives
    have hsize := hsafe.le_size
    rw [size_chars_ofText] at hsize
    exact ⟨hsafe.le, hsize⟩
  case closed =>
    intro start stop hreceives i hle hlt _
    cases hclosing : (ofText text).closing? i with
    | none =>
        exact .inr rfl
    | some j =>
        have hj := (safeSlice_of_receives hreceives).closing_lt i hlt hle j hclosing
        exact .inl ⟨j, rfl, lt_of_closing? hclosing, hj⟩
  case shorter =>
    intro start stop first last op position hstrip hprincipal
    obtain ⟨hstart, hstop⟩ := stripOuter_bounds (ofText text) start stop
    obtain ⟨hle, hlt⟩ : first ≤ position ∧ position < last := principal?_bounds hprincipal
    rw [hstrip] at hstart hstop
    dsimp only at hstart hstop
    omega
  case checked =>
    exact checkedBuild?_eq (safeSlice_whole text) (Nat.lt_succ_self _)
  case missingOperand =>
    exact fun start stop herror => bounds_of_missingOperand (safeSlice_whole text) herror

end Safety

end Expr

end FormulaCalc
