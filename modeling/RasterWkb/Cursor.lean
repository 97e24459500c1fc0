import RasterWkb.Fault

/-!
# A position in a byte stream

A cursor holds the bytes that are left and how many came before them. It moves
forward only. Each operation gives a value and the moved cursor, or a fault; in
the latter case the cursor that was passed in remains the current one, so that
nothing is consumed by a read that does not succeed.

The byte order is open at first and can be fixed once.
-/
namespace RasterWkb

/-- A position in a byte stream. -/
structure Cursor where
  /-- Bytes consumed so far. -/
  offset : Nat
  /-- Bytes left to read. -/
  rest : List UInt8
  /-- The order of multi-byte fields, once it is fixed. -/
  order : Option ByteOrder
deriving DecidableEq, Repr

namespace Cursor

/-- The start of a stream. -/
def start (bytes : List UInt8) (order : Option ByteOrder) : Cursor :=
  ⟨0, bytes, order⟩

/-- Number of bytes left to read. -/
def remaining (c : Cursor) : Nat :=
  c.rest.length

/-- Whether a list has at least so many members, looking no further than these. -/
def fits : Nat → List UInt8 → Bool
  | 0, _ => true
  | _ + 1, [] => false
  | n + 1, _ :: bs => fits n bs

theorem fits_iff {n : Nat} {bs : List UInt8} : fits n bs = true ↔ n ≤ bs.length := by
  induction n generalizing bs with
  | zero => simp [fits]
  | succ n ih =>
    cases bs with
    | nil => simp [fits]
    | cons b bs => simp [fits, ih]

/-- The cursor behind the next bytes. -/
def advance (c : Cursor) (count : Nat) : Cursor :=
  { c with offset := c.offset + count, rest := c.rest.drop count }

@[simp] theorem offset_advance (c : Cursor) (n : Nat) : (c.advance n).offset = c.offset + n := rfl

@[simp] theorem rest_advance (c : Cursor) (n : Nat) : (c.advance n).rest = c.rest.drop n := rfl

@[simp] theorem order_advance (c : Cursor) (n : Nat) : (c.advance n).order = c.order := rfl

/-- The next bytes. -/
def take (c : Cursor) (count : Int) : Except Fault (List UInt8 × Cursor) :=
  if count < 0 then .error (.ofNegative count)
  else if fits count.toNat c.rest then
    .ok (c.rest.take count.toNat, c.advance count.toNat)
  else .error (.ofUnderrun c.offset count.toNat c.remaining)

theorem take_of_le {c : Cursor} {n : Nat} (h : n ≤ c.remaining) :
    c.take n = .ok (c.rest.take n, c.advance n) := by
  have hn : ¬(n : Int) < 0 := by omega
  simp [take, hn, fits_iff.mpr h]

theorem take_of_lt {c : Cursor} {n : Nat} (h : c.remaining < n) :
    c.take n = .error (.ofUnderrun c.offset n c.remaining) := by
  have hn : ¬(n : Int) < 0 := by omega
  have hf : ¬fits n c.rest = true := by
    rw [fits_iff]
    exact Nat.not_le.mpr h
  simp [take, hn, hf]

/-- The next byte. -/
def uint8 (c : Cursor) : Except Fault (UInt8 × Cursor) :=
  match c.rest with
  | [] => .error (.decode (.bufferUnderrun c.offset 1 0))
  | b :: _ => .ok (b, c.advance 1)

/-- The pattern of the next field. That the order is open is noticed before a
lack of bytes. -/
def word (c : Cursor) (w : Word) : Except Fault (Nat × Cursor) :=
  match c.order with
  | none => .error (.orderOpen w)
  | some o => (c.take w.width).map fun (bytes, after) => (o.decode bytes, after)

/-- Fixes the byte order of a stream whose order is open. -/
def fixOrder (c : Cursor) (o : ByteOrder) : Except Fault Cursor :=
  match c.order with
  | none => .ok { c with order := some o }
  | some _ => .error .orderFixed

end Cursor

end RasterWkb
