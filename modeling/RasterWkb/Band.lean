import RasterWkb.Power
import RasterWkb.Text.Integer

/-!
# Pixel types and band descriptors

A band record opens with one byte: the code of its pixel type in the lowest four
bits, and above them one bit without meaning and three flags. A descriptor is
what that byte says. Its code may be any integer, since a descriptor can also be
put together by a caller; only codes below 16 have a byte.
-/
namespace RasterWkb

/-- The pixel types that the format defines. -/
inductive PixelType
  | bool1
  | uint2
  | uint4
  | int8
  | uint8
  | int16
  | uint16
  | int32
  | uint32
  | float32
  | float64
  | terminator
deriving DecidableEq, Repr

namespace PixelType

def code : PixelType → Nat
  | bool1 => 0
  | uint2 => 1
  | uint4 => 2
  | int8 => 3
  | uint8 => 4
  | int16 => 5
  | uint16 => 6
  | int32 => 7
  | uint32 => 8
  | float32 => 10
  | float64 => 11
  | terminator => 13

/-- The pixel type of a code, if the format defines one. -/
def ofCode? (code : Int) : Option PixelType :=
  match code with
  | 0 => some bool1
  | 1 => some uint2
  | 2 => some uint4
  | 3 => some int8
  | 4 => some uint8
  | 5 => some int16
  | 6 => some uint16
  | 7 => some int32
  | 8 => some uint32
  | 10 => some float32
  | 11 => some float64
  | 13 => some terminator
  | _ => none

theorem ofCode?_code (t : PixelType) : ofCode? t.code = some t := by
  cases t <;> rfl

theorem code_of_ofCode? {n : Int} {t : PixelType} (h : ofCode? n = some t) : t.code = n := by
  unfold ofCode? at h
  split at h <;> simp_all [code] <;> subst h <;> rfl

/-- Bytes taken by one sample, and by the nodata value. A sample narrower than a
byte takes a whole one; the terminator has no samples. -/
def byteSize : PixelType → Nat
  | bool1 | uint2 | uint4 | int8 | uint8 => 1
  | int16 | uint16 => 2
  | int32 | uint32 | float32 => 4
  | float64 => 8
  | terminator => 0

/-- Whether samples of the type can be turned into pixels. -/
def isSupported : PixelType → Bool
  | int8 | uint8 => true
  | _ => false

def name : PixelType → String
  | bool1 => "BOOL_1BIT"
  | uint2 => "UINT_2BIT"
  | uint4 => "UINT_4BIT"
  | int8 => "INT_8BIT"
  | uint8 => "UINT_8BIT"
  | int16 => "INT_16BIT"
  | uint16 => "UINT_16BIT"
  | int32 => "INT_32BIT"
  | uint32 => "UINT_32BIT"
  | float32 => "FLOAT_32BIT"
  | float64 => "FLOAT_64BIT"
  | terminator => "END"

end PixelType

/-- What the first byte of a band record says. -/
structure Descriptor where
  code : Int
  /-- The band's samples are stored outside the raster. -/
  isOffline : Bool := false
  /-- The nodata value has a meaning. -/
  hasNodata : Bool := false
  /-- Every sample is nodata. -/
  isNodata : Bool := false
deriving DecidableEq, Repr

/-- Why a number and a descriptor do not match. -/
inductive DescriptorFault
  | notOneByte (value : Int)
  | codeTooWide (code : Int)
deriving DecidableEq, Repr

def DescriptorFault.message : DescriptorFault → String
  | notOneByte value =>
    IntegerText.showing [value] s!"band type must be a single byte, got {value}"
  | codeTooWide code =>
    IntegerText.showing [code] s!"pixel type code must fit in 4 bits, got {code}"

namespace Descriptor

/-- The pixel type, if the code has one. -/
def pixelType? (d : Descriptor) : Option PixelType :=
  PixelType.ofCode? d.code

def isSupported (d : Descriptor) : Bool :=
  d.pixelType?.any PixelType.isSupported

/-- Whether a bit of a byte is set. -/
def bit (byte : UInt8) (position : Nat) : Bool :=
  byte.toNat / 2 ^ position % 2 = 1

/-- Every byte describes a band; bit 4 is ignored. -/
def ofByte (byte : UInt8) : Descriptor where
  code := byte.toNat % 16
  isOffline := bit byte 7
  hasNodata := bit byte 6
  isNodata := bit byte 5

/-- The descriptor of a number that is a byte. -/
def ofValue (value : Int) : Except DescriptorFault Descriptor :=
  if 0 ≤ value ∧ value ≤ 255 then .ok (ofByte (UInt8.ofNat value.toNat))
  else .error (.notOneByte value)

/-- What the flags add to the code. -/
def flags (d : Descriptor) : Nat :=
  (if d.isOffline then 128 else 0) + (if d.hasNodata then 64 else 0)
    + (if d.isNodata then 32 else 0)

/-- The byte of a descriptor, bit 4 clear. -/
def toByte (d : Descriptor) : Except DescriptorFault UInt8 :=
  if 0 ≤ d.code ∧ d.code ≤ 15 then .ok (UInt8.ofNat (d.code.toNat + d.flags))
  else .error (.codeTooWide d.code)

theorem ofByte_of_toByte {d : Descriptor} {byte : UInt8} (h : d.toByte = .ok byte) :
    ofByte byte = d := by
  obtain ⟨code, offline, has, all⟩ := d
  unfold toByte at h
  by_cases fits : 0 ≤ code ∧ code ≤ 15
  · rw [if_pos fits] at h
    injection h with h
    subst h
    obtain ⟨n, rfl⟩ : ∃ n : Nat, code = n := ⟨code.toNat, by omega⟩
    have small : n ≤ 15 := by omega
    cases offline <;> cases has <;> cases all <;>
      simp [ofByte, bit, flags, UInt8.toNat_ofNat'] <;> omega
  · rw [if_neg fits] at h
    cases h

/-- Bytes that follow the first nodata byte in a record whose raster has the
given number of pixels. Where the samples of an offline band are is not known,
nor is the size of those of an undefined type. -/
def tail? (d : Descriptor) (area : Int) : Option Int :=
  if d.isOffline then none
  else
    match d.pixelType? with
    | none => none
    | some t => if t.byteSize = 0 then none else some (t.byteSize - 1 + area * t.byteSize)

end Descriptor

end RasterWkb
