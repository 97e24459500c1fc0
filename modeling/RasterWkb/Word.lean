import RasterWkb.ByteOrder

/-!
# The multi-byte fields of the format

A field is a run of two, four or eight bytes in the byte order of its stream.
Signed fields use two's complement.
-/
namespace RasterWkb

/-- The multi-byte field kinds. -/
inductive Word
  | uint16
  | uint32
  | int32
  | float64
deriving DecidableEq, Repr

namespace Word

/-- Bytes taken by a field of the kind. -/
def width : Word → Nat
  | uint16 => 2
  | uint32 => 4
  | int32 => 4
  | float64 => 8

def name : Word → String
  | uint16 => "uint16"
  | uint32 => "uint32"
  | int32 => "int32"
  | float64 => "float64"

/-- The integer of a 32-bit pattern in two's complement. -/
def signed32 (pattern : Nat) : Int :=
  if pattern < 2147483648 then (pattern : Int) else (pattern : Int) - 4294967296

/-- The 32-bit pattern of an integer in two's complement. -/
def pattern32 (n : Int) : Nat :=
  (n % 4294967296).toNat

theorem signed32_pattern32 {n : Int} (low : -2147483648 ≤ n) (high : n < 2147483648) :
    signed32 (pattern32 n) = n := by
  unfold signed32 pattern32
  by_cases h : (n % 4294967296).toNat < 2147483648
  · rw [if_pos h]
    omega
  · rw [if_neg h]
    omega

theorem pattern32_signed32 {p : Nat} (h : p < 4294967296) : pattern32 (signed32 p) = p := by
  unfold signed32 pattern32
  by_cases h : p < 2147483648
  · rw [if_pos h]
    omega
  · rw [if_neg h]
    omega

end Word

end RasterWkb
