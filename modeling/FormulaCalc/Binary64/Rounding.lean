import FormulaCalc.Binary64.Basic
/-!
# Rounding a quotient to the nearest double

`nearestMagnitude num den` is the magnitude of the double nearest to `num / den`, an exact tie
going to the even neighbour and everything too large to infinity.  The quotient is measured in
multiples of the smallest positive double; its bit length says how many low bits a 53-bit
significand has no room for, and that many are rounded away.  Since magnitudes of one sign are
numbered in the order of their values, a carry out of the significand moves on to the next exponent
by itself, and subnormal results need no case of their own.

The main statement is `nearestMagnitude_units`: rounding the exact value of a finite magnitude gives
the magnitude back.
-/

namespace FormulaCalc

/-- The integer nearest to `num / den`, an exact tie going to the even one. -/
def roundHalfEven (num den : Nat) : Nat :=
  let quotient := num / den
  let remainder := num % den
  if 2 * remainder < den then quotient
  else if den < 2 * remainder then quotient + 1
  else quotient + quotient % 2

theorem roundHalfEven_mul (q : Nat) {den : Nat} (h : 0 < den) :
    roundHalfEven (q * den) den = q := by
  simp [roundHalfEven, Nat.mul_div_cancel _ h, h]

theorem roundHalfEven_scale (num den : Nat) {c : Nat} (hc : 0 < c) :
    roundHalfEven (num * c) (den * c) = roundHalfEven num den := by
  have hbelow : 2 * (num % den * c) < den * c ↔ 2 * (num % den) < den := by
    rw [← Nat.mul_assoc, Nat.mul_lt_mul_right hc]
  have habove : den * c < 2 * (num % den * c) ↔ den < 2 * (num % den) := by
    rw [← Nat.mul_assoc, Nat.mul_lt_mul_right hc]
  simp only [roundHalfEven, Nat.mul_div_mul_right _ _ hc, Nat.mul_mod_mul_right, hbelow, habove]

namespace Binary64

/-- How many low bits of a value in units do not fit a 53-bit significand. -/
def excessBits (units : Nat) : Nat :=
  Nat.log2 units - 52

/-- The magnitude of the double nearest to `num / den`. -/
def nearestMagnitude (num den : Nat) : Nat :=
  let scaled := num * unitsPerOne
  let excess := excessBits (scaled / den)
  min infinityMagnitude (excess * leadingBit + roundHalfEven scaled (den <<< excess))

theorem nearestMagnitude_lt (num den : Nat) : nearestMagnitude num den < 0x8000000000000000 :=
  Nat.lt_of_le_of_lt (Nat.min_le_left _ _) (by decide)

@[simp] theorem nearestMagnitude_zero (den : Nat) : nearestMagnitude 0 den = 0 := by
  simp [nearestMagnitude, excessBits, roundHalfEven]

theorem nearestMagnitude_scale (num den : Nat) {c : Nat} (hc : 0 < c) :
    nearestMagnitude (num * c) (den * c) = nearestMagnitude num den := by
  have hnum : num * c * unitsPerOne = num * unitsPerOne * c := Nat.mul_right_comm _ _ _
  have hden : ∀ e, (den * c) <<< e = den <<< e * c := fun e => by
    rw [Nat.shiftLeft_eq, Nat.shiftLeft_eq, Nat.mul_right_comm]
  simp only [nearestMagnitude, hnum, hden, Nat.mul_div_mul_right _ _ hc, roundHalfEven_scale _ _ hc]

theorem log2_significand {fraction : Nat} (h : fraction < leadingBit) (shift : Nat) :
    Nat.log2 ((leadingBit + fraction) <<< shift) = 52 + shift := by
  have hpos := Nat.two_pow_pos shift
  rw [leadingBit] at *
  rw [Nat.shiftLeft_eq, Nat.log2_eq_iff (Nat.ne_of_gt (Nat.mul_pos (by omega) hpos)),
    show 52 + shift + 1 = 53 + shift by omega, Nat.pow_add, Nat.pow_add]
  exact ⟨Nat.mul_le_mul_right _ (by omega), Nat.mul_lt_mul_of_pos_right (by omega) hpos⟩

/-- **Rounding the exact value of a finite magnitude gives the magnitude back.** -/
theorem nearestMagnitude_units {magnitude : Nat} (h : magnitude < infinityMagnitude) :
    nearestMagnitude (units magnitude) unitsPerOne = magnitude := by
  have hfraction : magnitude % leadingBit < leadingBit := Nat.mod_lt _ (by decide)
  have hdiv := Nat.div_add_mod magnitude leadingBit
  simp only [nearestMagnitude, Nat.mul_div_cancel _ unitsPerOne_pos, excessBits]
  by_cases hfield : magnitude / leadingBit = 0
  · have hunits : units magnitude = magnitude := by
      simp only [units, hfield, if_true]
      rw [hfield] at hdiv
      omega
    have hlog : Nat.log2 magnitude - 52 = 0 := by
      by_cases hzero : magnitude = 0
      · rw [hzero]
        rfl
      · have := (Nat.log2_lt hzero (k := 52)).2 (by rw [leadingBit] at *; omega)
        omega
    rw [hunits, hlog, Nat.shiftLeft_zero, roundHalfEven_mul _ unitsPerOne_pos]
    omega
  · have hunits : units magnitude =
        (leadingBit + magnitude % leadingBit) <<< (magnitude / leadingBit - 1) := by
      simp only [units, hfield, if_false]
    have hscale (e : Nat) : 0 < unitsPerOne <<< e := by
      rw [Nat.shiftLeft_eq]
      exact Nat.mul_pos unitsPerOne_pos (Nat.two_pow_pos e)
    have hmul (n e : Nat) : n <<< e * unitsPerOne = n * unitsPerOne <<< e := by
      rw [Nat.shiftLeft_eq, Nat.shiftLeft_eq, Nat.mul_assoc, Nat.mul_comm unitsPerOne]
    rw [hunits, log2_significand hfraction, Nat.add_sub_cancel_left, hmul,
      roundHalfEven_mul _ (hscale _)]
    rw [leadingBit] at *
    omega

/-- The double of the given sign nearest to `num / den`. -/
def ofRatio (negative : Bool) (num den : Nat) : Binary64 :=
  ⟨negative, nearestMagnitude num den, nearestMagnitude_lt num den⟩

@[simp] theorem ofRatio_negative (negative : Bool) (num den : Nat) :
    (ofRatio negative num den).negative = negative := by
  rw [ofRatio]

@[simp] theorem ofRatio_magnitude (negative : Bool) (num den : Nat) :
    (ofRatio negative num den).magnitude = nearestMagnitude num den := by
  rw [ofRatio]

end Binary64

end FormulaCalc
