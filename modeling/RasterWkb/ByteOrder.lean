import RasterWkb.Power

/-!
# Numbers as bytes in either order

A number below 256 ^ w and its w bytes determine each other. The two orders
differ only in which end is written first, so both reduce to the base-256
digits, least significant first.

The main statements are decode_encode and encode_decode, for every width.
-/
namespace RasterWkb

/-- Which end of a multi-byte number comes first. -/
inductive ByteOrder
  | little
  | big
deriving DecidableEq, Repr

namespace ByteOrder

/-- The lowest digits of a number in base 256, least significant first. -/
def digits : Nat → Nat → List UInt8
  | 0, _ => []
  | width + 1, n => UInt8.ofNat n :: digits width (n / 256)

/-- The number with the given digits in base 256, least significant first. -/
def value : List UInt8 → Nat
  | [] => 0
  | b :: bs => b.toNat + 256 * value bs

@[simp] theorem length_digits (width n : Nat) : (digits width n).length = width := by
  induction width generalizing n with
  | zero => rfl
  | succ width ih => simp [digits, ih]

theorem value_lt (bs : List UInt8) : value bs < 256 ^ bs.length := by
  induction bs with
  | nil => simp [value]
  | cons b bs ih =>
    have hb : b.toNat < 256 := b.toNat_lt
    simp only [value, List.length_cons, Nat.pow_succ]
    omega

theorem value_digits (width n : Nat) : value (digits width n) = n % 256 ^ width := by
  induction width generalizing n with
  | zero => simp [digits, value, Nat.mod_one]
  | succ width ih =>
    rw [digits, value, ih, Nat.pow_succ', Nat.mod_mul, UInt8.toNat_ofNat']

theorem digits_value (bs : List UInt8) : digits bs.length (value bs) = bs := by
  induction bs with
  | nil => rfl
  | cons b bs ih =>
    have hb : b.toNat < 256 := b.toNat_lt
    have hdiv : (b.toNat + 256 * value bs) / 256 = value bs := by omega
    have hhead : UInt8.ofNat (b.toNat + 256 * value bs) = b := by
      apply UInt8.toNat_inj.mp
      rw [UInt8.toNat_ofNat']
      omega
    rw [List.length_cons, value, digits, hdiv, ih, hhead]

/-- Puts digits that are least significant first into the order, or back. -/
def arrange : ByteOrder → List UInt8 → List UInt8
  | little, bs => bs
  | big, bs => bs.reverse

@[simp] theorem arrange_arrange (o : ByteOrder) (bs : List UInt8) :
    o.arrange (o.arrange bs) = bs := by
  cases o <;> simp [arrange]

@[simp] theorem length_arrange (o : ByteOrder) (bs : List UInt8) :
    (o.arrange bs).length = bs.length := by
  cases o <;> simp [arrange]

/-- The given number of bytes for a number; digits beyond them are dropped. -/
def encode (o : ByteOrder) (width n : Nat) : List UInt8 :=
  o.arrange (digits width n)

/-- The number written by the bytes. -/
def decode (o : ByteOrder) (bs : List UInt8) : Nat :=
  value (o.arrange bs)

@[simp] theorem length_encode (o : ByteOrder) (width n : Nat) :
    (o.encode width n).length = width := by
  simp [encode]

theorem decode_lt (o : ByteOrder) (bs : List UInt8) : o.decode bs < 256 ^ bs.length := by
  simpa [decode] using value_lt (o.arrange bs)

theorem decode_encode (o : ByteOrder) (width n : Nat) :
    o.decode (o.encode width n) = n % 256 ^ width := by
  simp [decode, encode, value_digits]

theorem encode_decode (o : ByteOrder) (bs : List UInt8) :
    o.encode bs.length (o.decode bs) = bs := by
  have h := digits_value (o.arrange bs)
  rw [length_arrange] at h
  rw [encode, decode, h, arrange_arrange]

end ByteOrder

end RasterWkb
