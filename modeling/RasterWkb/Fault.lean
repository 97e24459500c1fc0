import RasterWkb.Double.Decimal
import RasterWkb.HexText
import RasterWkb.Text.Integer
import RasterWkb.Word

/-!
# What can go wrong while reading

A decode error says that the input is no raster that can be decoded; it ends the
decoding. A band issue concerns one band and is only reported. The remaining
faults come from the way an operation was called, not from the input.

A message holds no integer of more than 4300 digits. A count of bytes with more
digits gives a fault of its own instead of the one that would have named it.
-/
namespace RasterWkb

/-- Why an input yields no raster. -/
inductive DecodeError
  | unsupportedVersion (version : Int)
  | unsupportedRotation (skewX skewY : Double)
  | unsupportedBandCount (count : Int)
  | bufferUnderrun (offset requested remaining : Nat)
  | inputTooLarge (size limit : Nat)
  | malformedHex (fault : HexFault)
deriving DecidableEq, Repr

def DecodeError.message : DecodeError → String
  | unsupportedVersion version => s!"WKB version {version} unsupported"
  | unsupportedRotation skewX skewY =>
    s!"raster rotation is not supported (skewX={skewX.text}, skewY={skewY.text})"
  | unsupportedBandCount count => s!"raster with {count} bands is not supported"
  | bufferUnderrun offset requested remaining =>
    s!"buffer underrun at offset {offset}: need {requested} bytes, {remaining} remaining"
  | inputTooLarge size limit => s!"input of {size} bytes exceeds limit of {limit} bytes"
  | malformedHex fault => s!"invalid raster hex: {fault.message}"

/-- Why a band was left out. -/
inductive BandIssue
  | unsupportedPixelType (band : Nat) (code : Int)
  | offline (band : Nat)
deriving DecidableEq, Repr

namespace BandIssue

def band : BandIssue → Nat
  | unsupportedPixelType band _ => band
  | offline band => band

def message : BandIssue → String
  | unsupportedPixelType band code => s!"band {band} type {code} unsupported"
  | offline band => s!"offline band {band} unsupported"

end BandIssue

/-- Why an operation stops. -/
inductive Fault
  | decode (error : DecodeError)
  | negativeCount (count : Int)
  | orderFixed
  | orderOpen (word : Word)
  | countTooLong
  | sizeTooLarge
  /-- Samples cannot be laid out in fewer than no rows or columns. -/
  | negativeSize
  | noChannel (band : Nat)
deriving DecidableEq, Repr

namespace Fault

/-- The fault of a read of fewer than no bytes. -/
def ofNegative (count : Int) : Fault :=
  if IntegerText.isShort count then .negativeCount count else .countTooLong

/-- The fault of a read beyond the end. -/
def ofUnderrun (offset requested remaining : Nat) : Fault :=
  if IntegerText.isShort requested then .decode (.bufferUnderrun offset requested remaining)
  else .countTooLong

theorem ofUnderrun_of_lt {offset requested remaining : Nat} (h : requested < 2 ^ (64 : Nat)) :
    ofUnderrun offset requested remaining =
      .decode (.bufferUnderrun offset requested remaining) :=
  if_pos (IntegerText.isShort_of_natAbs_lt (n := (requested : Int)) h)

def message : Fault → String
  | decode error => error.message
  | negativeCount count => s!"cannot read a negative number of bytes: {count}"
  | orderFixed => "byte order is already fixed for this stream"
  | orderOpen word => s!"byte order must be fixed before reading {word.name}"
  | countTooLong => IntegerText.tooLongToShow
  | sizeTooLarge => "size is too large for a double"
  | negativeSize => "a size is negative"
  | noChannel band => s!"band {band} has no channel"

end Fault

end RasterWkb
