import RasterWkb.Cursor

/-!
# Views of a buffer

A view selects bytes of a buffer. It has a first position, a step from each position to
the next one, and a number of positions. A buffer can be looked at in steps: from the
first byte on, or with a negative step from the last byte backwards, as far as there are
bytes.

A cursor needs its bytes side by side. A view whose bytes are side by side is used as it
stands, and that goes for a view of one byte whatever its step is. Of any other view a
copy is made, byte by byte.
-/
namespace RasterWkb

/-- A selection of the bytes of a buffer at equal distances. -/
structure View where
  buffer : List UInt8
  /-- The first position. -/
  start : Int
  /-- From one position to the next. -/
  step : Int
  count : Nat
  inside : ∀ i < count, 0 ≤ start + i * step ∧ start + i * step < buffer.length

namespace View

/-- The position of the byte with an index. -/
def position (v : View) (i : Nat) : Nat :=
  (v.start + i * v.step).toNat

theorem position_lt (v : View) {i : Nat} (h : i < v.count) : v.position i < v.buffer.length := by
  have inside := v.inside i h
  unfold position
  omega

def byte (v : View) (i : Fin v.count) : UInt8 :=
  v.buffer.get ⟨v.position i, v.position_lt i.isLt⟩

/-- Whether the bytes are side by side. -/
def isContiguous (v : View) : Bool :=
  v.count == 1 || v.step == 1

/-- The bytes where they stand, from the first one on. -/
def standing (v : View) : List UInt8 :=
  (v.buffer.drop v.start.toNat).take v.count

/-- A copy of the bytes. -/
def copied (v : View) : List UInt8 :=
  List.ofFn v.byte

/-- The bytes of the view, side by side. -/
def contents (v : View) : List UInt8 :=
  if v.isContiguous then v.standing else v.copied

/-- Number of steps of a size that start within a length. -/
def steps (length size : Nat) : Nat :=
  if length = 0 then 0 else (length - 1) / size + 1

theorem lt_steps_iff {length size i : Nat} (h : 0 < size) :
    i < steps length size ↔ i * size < length := by
  unfold steps
  by_cases none : length = 0
  · simp [none]
  · rw [if_neg none, Nat.lt_succ_iff, Nat.le_div_iff_mul_le h]
    omega

/-- A buffer in steps. -/
def inSteps (buffer : List UInt8) (step : Int) (h : step ≠ 0) : View where
  buffer
  start := if step < 0 then buffer.length - 1 else 0
  step
  count := steps buffer.length step.natAbs
  inside := by
    intro i hi
    have size : 0 < step.natAbs := Int.natAbs_pos.mpr h
    have place : (i : Int) * step.natAbs < buffer.length := by
      exact_mod_cast (lt_steps_iff size).mp hi
    have forward : 0 ≤ (i : Int) * step.natAbs := by
      exact_mod_cast Nat.zero_le (i * step.natAbs)
    rcases Int.natAbs_eq step with sign | sign
    · have positive : ¬step < 0 := by omega
      rw [if_neg positive, Int.zero_add, sign]
      exact ⟨forward, place⟩
    · have negative : step < 0 := by omega
      have back : (i : Int) * step = -(i * step.natAbs) := by
        rw [← Int.mul_neg, ← sign]
      rw [if_pos negative, back]
      omega

section Steps
variable (buffer : List UInt8) (step : Int) (h : step ≠ 0)

theorem buffer_inSteps : (inSteps buffer step h).buffer = buffer := rfl

theorem count_inSteps : (inSteps buffer step h).count = steps buffer.length step.natAbs := rfl

theorem position_inSteps (i : Nat) :
    (inSteps buffer step h).position i =
      ((if step < 0 then (buffer.length - 1 : Int) else 0) + i * step).toNat := rfl

end Steps

end View

/-- The start of the stream that a view shows. -/
def Cursor.ofView (v : View) (order : Option ByteOrder) : Cursor :=
  .start v.contents order

end RasterWkb
