import RasterWkb.Power

/-!
# Double-precision numbers by their bit patterns

A double is kept as its 64-bit pattern, so that it can be carried from bytes to
bytes unchanged, whatever it stands for. Rounding a dyadic number to the nearest
double, ties to even, is done in exact integer arithmetic; it serves integers
and the narrower formats alike.

Addition and multiplication are those of the machine's doubles. The bits of a
NaN they produce are not specified here.
-/
namespace RasterWkb

/-- A double-precision number, known by its bit pattern. -/
structure Double where
  bits : UInt64
deriving DecidableEq, Repr

namespace Double

/-- The bit pattern as a number. -/
def pattern (d : Double) : Nat :=
  d.bits.toNat

/-- The double of a bit pattern; bits above the lowest 64 are dropped. -/
def ofPattern (n : Nat) : Double :=
  ⟨UInt64.ofNat n⟩

theorem pattern_lt (d : Double) : d.pattern < 2 ^ (64 : Nat) := d.bits.toNat_lt

@[simp] theorem ofPattern_pattern (d : Double) : ofPattern d.pattern = d := by
  simp [ofPattern, pattern]

theorem pattern_ofPattern {n : Nat} (h : n < 2 ^ (64 : Nat)) : (ofPattern n).pattern = n := by
  simp only [ofPattern, pattern, UInt64.toNat_ofNat']
  exact Nat.mod_eq_of_lt h

/-- The pattern without its sign bit. -/
def magnitude (d : Double) : Nat :=
  d.pattern % 2 ^ (63 : Nat)

def isNegative (d : Double) : Bool :=
  2 ^ (63 : Nat) ≤ d.pattern

/-- The magnitude of infinity; beyond it lie the NaNs. -/
def infinityPattern : Nat := 0x7FF0000000000000

def isNaN (d : Double) : Bool :=
  infinityPattern < d.magnitude

def isInfinite (d : Double) : Bool :=
  d.magnitude = infinityPattern

/-- Whether the number is zero of either sign. -/
def isZero (d : Double) : Bool :=
  d.magnitude = 0

/-- A magnitude with a sign. -/
def ofMagnitude (negative : Bool) (magnitude : Nat) : Double :=
  ofPattern (if negative then 2 ^ (63 : Nat) + magnitude else magnitude)

def zero : Double := ⟨0⟩

def one : Double := ⟨0x3FF0000000000000⟩

/-- The absolute value of a finite double is the first component times two to
the power of the second. -/
def parts (d : Double) : Nat × Int :=
  let exponent := d.magnitude / 2 ^ (52 : Nat)
  let fraction := d.magnitude % 2 ^ (52 : Nat)
  if exponent = 0 then (fraction, -1074) else (fraction + 2 ^ (52 : Nat), Int.ofNat exponent - 1075)

/-- The number divided by two to the power of the shift, rounded to the nearest
integer, a tie to the even one. -/
def roundShift (n shift : Nat) : Nat :=
  let quotient := n / 2 ^ shift
  let twice := 2 * (n % 2 ^ shift)
  if 2 ^ shift < twice ∨ (twice = 2 ^ shift ∧ quotient % 2 = 1) then quotient + 1 else quotient

/-- The nearest number with at most the given count of significant bits and an
exponent no less than the lowest one. -/
def roundTo (precision : Nat) (lowest : Int) (mantissa : Nat) (exponent : Int) : Nat × Int :=
  let unit := max (exponent + mantissa.log2 + 1 - precision) lowest
  if unit ≤ exponent then (mantissa * 2 ^ (exponent - unit).toNat, unit)
  else (roundShift mantissa (unit - exponent).toNat, unit)

/-- The pattern of the nearest double. From the infinity pattern on, the number
is too large for a double. -/
def nearestPattern (mantissa : Nat) (exponent : Int) : Nat :=
  if mantissa = 0 then 0
  else
    let rounded := roundTo 53 (-1074) mantissa exponent
    (rounded.2 + 1074).toNat * 2 ^ (52 : Nat) + rounded.1

/-- The nearest double, infinite when the number is too large. -/
def nearest (negative : Bool) (mantissa : Nat) (exponent : Int) : Double :=
  ofMagnitude negative (min (nearestPattern mantissa exponent) infinityPattern)

/-- The double nearest to an integer. -/
def ofInt (n : Int) : Double :=
  nearest (decide (n < 0)) n.natAbs 0

/-- The double nearest to an integer, if that is finite. -/
def ofInt? (n : Int) : Option Double :=
  if nearestPattern n.natAbs 0 < infinityPattern then some (ofInt n) else none

/-- A number that fits the mantissa is not rounded. -/
theorem nearestPattern_eq {m : Nat} (hm : m ≠ 0) (hlt : m < 2 ^ (53 : Nat)) :
    nearestPattern m 0 = (m.log2 + 1022) * 2 ^ (52 : Nat) + m * 2 ^ (52 - m.log2) := by
  have hlog : m.log2 < 53 := (Nat.log2_lt hm).mpr hlt
  have hunit : max ((0 : Int) + m.log2 + 1 - (53 : Nat)) (-1074) = (m.log2 : Int) - 52 := by omega
  have hshift : ((0 : Int) - ((m.log2 : Int) - 52)).toNat = 52 - m.log2 := by omega
  have hbase : ((m.log2 : Int) - 52 + 1074).toNat = m.log2 + 1022 := by omega
  simp only [nearestPattern, if_neg hm, roundTo, hunit]
  rw [if_pos (by omega)]
  simp only [hshift, hbase]

/-- The leading bit of a number moves to place 52. -/
theorem normalized {m : Nat} (hm : m ≠ 0) (hlt : m < 2 ^ (53 : Nat)) :
    2 ^ (52 : Nat) ≤ m * 2 ^ (52 - m.log2) ∧ m * 2 ^ (52 - m.log2) < 2 ^ (53 : Nat) := by
  have hlog : m.log2 < 53 := (Nat.log2_lt hm).mpr hlt
  have hlow : 2 ^ m.log2 ≤ m := Nat.log2_self_le hm
  have hhigh : m < 2 ^ (m.log2 + 1) := Nat.lt_log2_self
  constructor
  · calc 2 ^ (52 : Nat) = 2 ^ m.log2 * 2 ^ (52 - m.log2) := (two_pow_mul (by omega)).symm
      _ ≤ m * 2 ^ (52 - m.log2) := Nat.mul_le_mul_right _ hlow
  · calc m * 2 ^ (52 - m.log2) < 2 ^ (m.log2 + 1) * 2 ^ (52 - m.log2) :=
          Nat.mul_lt_mul_of_pos_right hhigh (Nat.two_pow_pos _)
      _ = 2 ^ (53 : Nat) := two_pow_mul (by omega)

theorem nearestPattern_of_lt {n : Nat} (h : n < 2 ^ (53 : Nat)) :
    nearestPattern n 0 < infinityPattern := by
  by_cases hz : n = 0
  · subst hz
    decide
  · have hlog : n.log2 < 53 := (Nat.log2_lt hz).mpr h
    have hfit := (normalized hz h).2
    rw [nearestPattern_eq hz h, infinityPattern]
    omega

/-- Integers that a double holds exactly are never too large. -/
theorem ofInt?_of_natAbs_lt {n : Int} (h : n.natAbs < 2 ^ (53 : Nat)) :
    ofInt? n = some (ofInt n) := by
  simp [ofInt?, nearestPattern_of_lt h]

/-- Whether the number is an integer. An infinity counts as one, a NaN does not. -/
def isWhole (d : Double) : Bool :=
  if d.isNaN then false
  else if d.isInfinite then true
  else
    let p := d.parts
    0 ≤ p.2 || p.1 % 2 ^ (-p.2).toNat = 0

/-- A finite double with its fraction dropped. -/
def truncate (d : Double) : Int :=
  let p := d.parts
  let whole : Int := if 0 ≤ p.2 then p.1 * 2 ^ p.2.toNat else p.1 / 2 ^ (-p.2).toNat
  if d.isNegative then -whole else whole

def add (a b : Double) : Double :=
  ⟨(Float.ofBits a.bits + Float.ofBits b.bits).toBits⟩

def mul (a b : Double) : Double :=
  ⟨(Float.ofBits a.bits * Float.ofBits b.bits).toBits⟩

instance : Add Double := ⟨add⟩

instance : Mul Double := ⟨mul⟩

end Double

/-- A binary format no wider than a double. The extended formats of some machines, wider
than that, are left out. -/
inductive Precision
  | half
  | single
  | double
deriving DecidableEq, Repr

namespace Precision

/-- Significant bits. -/
def digits : Precision → Nat
  | half => 11
  | single => 24
  | double => 53

/-- The exponent of the smallest positive number. -/
def lowest : Precision → Int
  | half => -24
  | single => -149
  | double => -1074

/-- Two to this power is the least that is too large. -/
def ceiling : Precision → Nat
  | half => 16
  | single => 128
  | double => 1024

/-- A double as a number of a narrower format: the nearest one, infinite when
the number is too large. -/
def narrow (p : Precision) (d : Double) : Double :=
  if d.isNaN || d.isInfinite || d.isZero then d
  else
    let rounded := Double.roundTo p.digits p.lowest d.parts.1 d.parts.2
    if (p.ceiling : Int) ≤ rounded.1.log2 + rounded.2 then
      Double.ofMagnitude d.isNegative Double.infinityPattern
    else
      Double.nearest d.isNegative rounded.1 rounded.2

/-- The number of the format that a double becomes. -/
def round : Precision → Double → Double
  | double, d => d
  | p, d => p.narrow d

@[simp] theorem round_double (d : Double) : round double d = d := rfl

end Precision

end RasterWkb
