/-!
# Decimal numerals

A `Decimal` is an integer with a count of places after the point.  `read?` accepts digits with at
most one point and at least one digit; `render` writes a numeral positionally, with at least one
digit before the point and no point when there are no places.  `read?_render` says that reading
undoes writing.
-/

namespace FormulaCalc

/-- A power of ten. -/
def powerOfTen (exponent : Nat) : Nat :=
  Nat.pow 10 exponent

theorem powerOfTen_succ (exponent : Nat) : powerOfTen (exponent + 1) = powerOfTen exponent * 10 :=
  rfl

theorem powerOfTen_eq (exponent : Nat) :
    powerOfTen exponent = (1 <<< exponent) * Nat.pow 5 exponent := by
  rw [powerOfTen, Nat.shiftLeft_eq, Nat.one_mul]
  exact Nat.mul_pow 2 5 exponent

/-- The number `digits / 10 ^ places`. -/
@[ext]
structure Decimal where
  digits : Nat
  places : Nat
deriving DecidableEq, Repr

namespace Decimal

/-- Reads digits with at most one point among them, and at least one digit. -/
def read? (text : List Char) : Option Decimal :=
  let whole := text.takeWhile Char.isDigit
  match text.dropWhile Char.isDigit with
  | [] => if whole.isEmpty then none else some ⟨Nat.ofDigitChars 10 whole 0, 0⟩
  | point :: fraction =>
    if point = '.' ∧ fraction.all Char.isDigit ∧ ¬ (whole ++ fraction).isEmpty then
      some ⟨Nat.ofDigitChars 10 (whole ++ fraction) 0, fraction.length⟩
    else none

/-- The digits, with zeros in front so that one stands before the point. -/
def paddedDigits (d : Decimal) : List Char :=
  let digits := Nat.toDigits 10 d.digits
  List.replicate (d.places + 1 - digits.length) '0' ++ digits

/-- Positional notation. -/
def render (d : Decimal) : List Char :=
  let digits := d.paddedDigits
  let whole := digits.length - d.places
  if d.places = 0 then digits else digits.take whole ++ '.' :: digits.drop whole

/-- The numeral `digits / 10 ^ places` without needless zeros at the end of its places. -/
def trimPlaces (digits : Nat) : Nat → Decimal
  | 0 => ⟨digits, 0⟩
  | places + 1 =>
    if digits % 10 = 0 then trimPlaces (digits / 10) places else ⟨digits, places + 1⟩

/-- The same number without needless zeros at the end of its places. -/
def trimmed (d : Decimal) : Decimal :=
  trimPlaces d.digits d.places

theorem isDigit_of_mem_paddedDigits (d : Decimal) {c : Char} (h : c ∈ d.paddedDigits) :
    c.isDigit := by
  unfold paddedDigits at h
  rcases List.mem_append.1 h with h | h
  · rw [List.eq_of_mem_replicate h]; rfl
  · exact Nat.isDigit_of_mem_toDigits (by decide) (by decide) h

theorem places_lt_length_paddedDigits (d : Decimal) : d.places < d.paddedDigits.length := by
  simp [paddedDigits]; omega

theorem ofDigitChars_paddedDigits (d : Decimal) :
    Nat.ofDigitChars 10 d.paddedDigits 0 = d.digits := by
  simp [paddedDigits, Nat.ofDigitChars_append, Nat.ofDigitChars_replicate_zero,
    Nat.ofDigitChars_toDigits]

/-- The text of a numeral starts with a digit. -/
theorem isDigit_head_render (d : Decimal) : d.render.head?.any Char.isDigit := by
  have hdigits := fun c => isDigit_of_mem_paddedDigits d (c := c)
  have hlen := places_lt_length_paddedDigits d
  simp only [render]
  generalize d.paddedDigits = digits at *
  cases digits with
  | nil => simp at hlen
  | cons c rest =>
    have hc := hdigits c List.mem_cons_self
    split
    · simpa using hc
    · obtain ⟨n, hn⟩ : ∃ n, (c :: rest).length - d.places = n + 1 :=
        ⟨(c :: rest).length - d.places - 1, by omega⟩
      rw [hn, List.take_succ_cons]
      simpa using hc

/-- **Reading undoes writing.** -/
theorem read?_render (d : Decimal) : read? d.render = some d := by
  have hdigits := fun c => isDigit_of_mem_paddedDigits d (c := c)
  have hlen := places_lt_length_paddedDigits d
  have hvalue := ofDigitChars_paddedDigits d
  generalize hds : d.paddedDigits = ds at *
  have hne : ds ≠ [] := by intro h; simp [h] at hlen
  by_cases hp : d.places = 0
  · have ht : (ds ++ []).takeWhile Char.isDigit = _ := List.takeWhile_append_of_pos hdigits
    have hd : (ds ++ []).dropWhile Char.isDigit = _ := List.dropWhile_append_of_pos hdigits
    simp only [List.append_nil, List.takeWhile_nil, List.dropWhile_nil] at ht hd
    have : d = ⟨d.digits, 0⟩ := by ext <;> simp [hp]
    simp [read?, render, hds, hp, ht, hd, hne, hvalue, ← this]
  · obtain ⟨n, hn⟩ : ∃ n, ds.length - d.places = n := ⟨_, rfl⟩
    have htake : ∀ c ∈ ds.take n, c.isDigit := fun c hc => hdigits c (List.mem_of_mem_take hc)
    have hdrop : ∀ c ∈ ds.drop n, c.isDigit := fun c hc => hdigits c (List.mem_of_mem_drop hc)
    have ht : (ds.take n ++ '.' :: ds.drop n).takeWhile Char.isDigit = _ :=
      List.takeWhile_append_of_pos htake
    have hd : (ds.take n ++ '.' :: ds.drop n).dropWhile Char.isDigit = _ :=
      List.dropWhile_append_of_pos htake
    rw [List.takeWhile_cons_of_neg (by decide)] at ht
    rw [List.dropWhile_cons_of_neg (by decide)] at hd
    have hlength : ds.length - n = d.places := by omega
    simp only [read?, render, hds, hp, hn, if_false, ht, hd]
    simpa [hne, hvalue, hlength] using hdrop

end Decimal

end FormulaCalc
