import FormulaCalc.Binary64.Rounding
import FormulaCalc.Decimal.Basic
/-!
# The shortest decimal text of a double

A finite double is written with the fewest significant digits that read back to it, and among
those with the digits nearest to its exact value, the greater ones on a tie.  On the grid of numerals with `n` significant
digits only the two neighbours of the value can qualify, so seventeen grids are tried in turn.
The text is positional, never with an exponent: `1000000000000000000000`, `0.0000001`.

A numeral is accepted only after it has been read back, and the exact expansion of the double
stands behind all of them; so `readsAs_shortest` holds, and with it `read?_render`: reading the text
of a finite double gives that double.
-/

namespace FormulaCalc

namespace Binary64

/-- The double nearest to a signed decimal numeral. -/
def ofDecimal (negative : Bool) (d : Decimal) : Binary64 :=
  ofRatio negative d.digits (powerOfTen d.places)

/-- Reads a decimal numeral with an optional sign in front. -/
def read? : List Char → Option Binary64
  | '-' :: text => (Decimal.read? text).map (ofDecimal true)
  | '+' :: text => (Decimal.read? text).map (ofDecimal false)
  | text => (Decimal.read? text).map (ofDecimal false)

end Binary64

namespace Decimal

/-- Whether the numeral is nearer to this finite magnitude than to any other. -/
def readsAs (magnitude : Nat) (d : Decimal) : Bool :=
  Binary64.nearestMagnitude d.digits (powerOfTen d.places) = magnitude

/-- The exponent `k` for which `10 ^ (k - 1) ≤ num / den < 10 ^ k`. -/
def exponentOf (num den : Nat) : Int :=
  if den ≤ num then (Nat.toDigits 10 (num / den)).length
  else 1 - ((Nat.toDigits 10 ((den - 1) / num)).length : Int)

/-- The numeral `digits / 10 ^ places`, where a negative count of places stands for zeros. -/
def ofScaled (digits : Nat) (places : Int) : Decimal :=
  ⟨digits * powerOfTen (-places).toNat, places.toNat⟩

/--
The numerals with `n` significant digits on either side of `num / den`, the nearer first, and the
greater one first on a tie.
-/
def neighbours (num den n : Nat) : List Decimal :=
  let places := n - exponentOf num den
  let num := num * powerOfTen places.toNat
  let den := den * powerOfTen (-places).toNat
  let below := ofScaled (num / den) places
  let above := ofScaled (num / den + 1) places
  if 2 * (num % den) < den then [below, above] else [above, below]

/-- The exact value of a finite magnitude, since `2 ^ -n` is `5 ^ n / 10 ^ n`. -/
def exact (magnitude : Nat) : Decimal :=
  ⟨Binary64.units magnitude * Nat.pow 5 Binary64.unitExponent, Binary64.unitExponent⟩

/-- The first neighbour that reads as this finite magnitude, on the coarsest grid that has one. -/
def shortest? (magnitude : Nat) : Option Decimal :=
  (List.range' 1 17).findSome? fun n =>
    (neighbours (Binary64.units magnitude) Binary64.unitsPerOne n).find? (readsAs magnitude)

/-- The numeral with the fewest significant digits that reads as this finite magnitude. -/
def shortest (magnitude : Nat) : Decimal :=
  if magnitude = 0 then ⟨0, 0⟩ else ((shortest? magnitude).getD (exact magnitude)).trimmed

theorem readsAs_zero : readsAs 0 ⟨0, 0⟩ := by
  rw [readsAs, decide_eq_true_eq]
  exact Binary64.nearestMagnitude_zero _

theorem readsAs_trimmed {magnitude : Nat} {d : Decimal} (h : d.readsAs magnitude) :
    d.trimmed.readsAs magnitude := by
  obtain ⟨digits, places⟩ := d
  induction places generalizing digits with
  | zero => exact h
  | succ places ih =>
    simp only [trimmed, trimPlaces]
    split
    · next hdigits =>
      refine ih (digits / 10) ?_
      have hcancel : digits / 10 * 10 = digits := by omega
      simp only [readsAs, decide_eq_true_eq] at h ⊢
      rw [← Binary64.nearestMagnitude_scale _ _ (show 0 < 10 by decide), hcancel, ← powerOfTen_succ, h]
    · exact h

theorem readsAs_of_shortest? {magnitude : Nat} {d : Decimal} (h : shortest? magnitude = some d) :
    d.readsAs magnitude := by
  obtain ⟨n, _, hn⟩ := List.exists_of_findSome?_eq_some h
  exact List.find?_some hn

theorem readsAs_exact {magnitude : Nat} (h : magnitude < Binary64.infinityMagnitude) :
    (exact magnitude).readsAs magnitude := by
  have hpos (n : Nat) : 0 < Nat.pow 5 n := Nat.pow_pos (by decide)
  rw [readsAs, decide_eq_true_eq, exact, powerOfTen_eq, ← Binary64.unitsPerOne,
    Binary64.nearestMagnitude_scale _ _ (hpos _), Binary64.nearestMagnitude_units h]

theorem readsAs_candidate {magnitude : Nat} (h : magnitude < Binary64.infinityMagnitude) :
    ((shortest? magnitude).getD (exact magnitude)).readsAs magnitude := by
  cases hfound : shortest? magnitude with
  | none => exact readsAs_exact h
  | some d => exact readsAs_of_shortest? hfound

theorem readsAs_zero_or_trimmed {magnitude : Nat} {d : Decimal} (h : d.readsAs magnitude) :
    (if magnitude = 0 then ⟨0, 0⟩ else d.trimmed).readsAs magnitude := by
  split
  · next hzero =>
    subst hzero
    exact readsAs_zero
  · exact readsAs_trimmed h

/-- **What is written for a finite magnitude reads back to it.** -/
theorem readsAs_shortest {magnitude : Nat} (h : magnitude < Binary64.infinityMagnitude) :
    (shortest magnitude).readsAs magnitude :=
  readsAs_zero_or_trimmed (readsAs_candidate h)

end Decimal

namespace Binary64

/--
The text of a double: the shortest numeral behind a minus sign where the sign bit is set, `inf`
for an infinity, and `NaN` without a sign.
-/
def render (v : Binary64) : List Char :=
  if v.isNaN then ['N', 'a', 'N']
  else
    let unsigned := if v.isFinite then (Decimal.shortest v.magnitude).render else ['i', 'n', 'f']
    if v.negative then '-' :: unsigned else unsigned

theorem ofDecimal_shortest {v : Binary64} (h : v.isFinite) :
    ofDecimal v.negative (Decimal.shortest v.magnitude) = v := by
  have hread := Decimal.readsAs_shortest (isFinite_iff.1 h)
  rw [Decimal.readsAs, decide_eq_true_eq] at hread
  ext
  · rw [ofDecimal, ofRatio_negative]
  · rw [ofDecimal, ofRatio_magnitude, hread]

/-- **Reading the text of a finite double gives that double.** -/
theorem read?_render {v : Binary64} (h : v.isFinite) : read? v.render = some v := by
  have hdecimal := Decimal.read?_render (Decimal.shortest v.magnitude)
  have hvalue := ofDecimal_shortest h
  simp only [render, isNaN_eq_false h, h, if_true, Bool.false_eq_true, if_false]
  cases hsign : v.negative with
  | true => simp [read?, hdecimal, ← hsign, hvalue]
  | false =>
    have hhead := Decimal.isDigit_head_render (Decimal.shortest v.magnitude)
    generalize (Decimal.shortest v.magnitude).render = text at hdecimal hhead
    rw [hsign] at hvalue
    simp only [Bool.false_eq_true, if_false, read?]
    split
    · simp at hhead
    · simp at hhead
    · simp [hdecimal, hvalue]

end Binary64

end FormulaCalc
