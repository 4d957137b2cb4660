/-!
# Double-precision numbers as sign and magnitude

A `Binary64` is a sign and the integer formed by its lower 63 bits.  That integer orders the
numbers of one sign: zero is 0, infinity is `0x7ff0000000000000`, and everything above is NaN.  So
a double is finite exactly when its magnitude lies below infinity's, and changing a sign never
touches the magnitude.

`units` gives the exact value of a finite magnitude as a multiple of the smallest positive double;
all exact arithmetic on doubles in this library is done in that unit.
-/

namespace FormulaCalc

/-- A double: its sign bit and the integer of the 63 bits below it. -/
@[ext]
structure Binary64 where
  negative : Bool
  magnitude : Nat
  magnitude_lt : magnitude < 0x8000000000000000
deriving DecidableEq

namespace Binary64

/-- The magnitude of both infinities. -/
def infinityMagnitude : Nat := 0x7ff0000000000000

/-- Positive zero. -/
def zero : Binary64 := ⟨false, 0, by decide⟩

instance : Inhabited Binary64 := ⟨zero⟩

/-- The double with the given sixty-four bits. -/
def ofBits (bits : UInt64) : Binary64 where
  negative := 0x8000000000000000 ≤ bits.toNat
  magnitude := bits.toNat % 0x8000000000000000
  magnitude_lt := Nat.mod_lt _ (by decide)

/-- The sixty-four bits of a double. -/
def toBits (v : Binary64) : UInt64 :=
  UInt64.ofNat ((if v.negative then 0x8000000000000000 else 0) + v.magnitude)

/-- A number above infinity is no number. -/
def isNaN (v : Binary64) : Bool :=
  infinityMagnitude < v.magnitude

/-- Neither an infinity nor NaN. -/
def isFinite (v : Binary64) : Bool :=
  v.magnitude < infinityMagnitude

/-- Zero of either sign. -/
def isZero (v : Binary64) : Bool :=
  v.magnitude = 0

/-- The same magnitude with the other sign. -/
def neg (v : Binary64) : Binary64 :=
  ⟨!v.negative, v.magnitude, v.magnitude_lt⟩

instance : Neg Binary64 := ⟨neg⟩

/--
Numeric equality: NaN equals nothing, the two zeros are equal, and otherwise sign and magnitude
must agree.
-/
def numericEq (a b : Binary64) : Bool :=
  !a.isNaN && !b.isNaN && (a.isZero && b.isZero || a = b)

/-- The machine number with the same bits. -/
def toFloat (v : Binary64) : Float :=
  Float.ofBits v.toBits

/-- The double held by a machine number. -/
def ofFloat (x : Float) : Binary64 :=
  ofBits x.toBits

/-- The smallest positive double is one divided by the power of two with this exponent. -/
def unitExponent : Nat := 1074

/-- How many times the smallest positive double goes into one. -/
def unitsPerOne : Nat := 1 <<< unitExponent

/-- The weight of the leading bit of a 53-bit significand. -/
def leadingBit : Nat := 0x10000000000000

/--
The exact value of a finite magnitude as a multiple of the smallest positive double.  The exponent
field is the number above the lower 52 bits.  Where it is zero the magnitude is its own value;
elsewhere the lower bits have a leading bit in front of them, and each step of the field doubles the
value.
-/
def units (magnitude : Nat) : Nat :=
  let field := magnitude / leadingBit
  let fraction := magnitude % leadingBit
  if field = 0 then fraction else (leadingBit + fraction) <<< (field - 1)

theorem unitsPerOne_pos : 0 < unitsPerOne := by
  rw [unitsPerOne, Nat.shiftLeft_eq, Nat.one_mul]
  exact Nat.two_pow_pos _

theorem isFinite_iff {v : Binary64} : v.isFinite ↔ v.magnitude < infinityMagnitude := by
  rw [isFinite, decide_eq_true_eq]

theorem isNaN_eq_false {v : Binary64} (h : v.isFinite) : v.isNaN = false := by
  have := isFinite_iff.1 h
  rw [isNaN, decide_eq_false_iff_not]
  omega

@[simp] theorem neg_magnitude (v : Binary64) : (-v).magnitude = v.magnitude := rfl

@[simp] theorem neg_negative (v : Binary64) : (-v).negative = !v.negative := rfl

end Binary64

end FormulaCalc
