import RasterWkb.Band
import RasterWkb.Sample

/-!
# Writing band records

A band can be written when it is stored in the raster, its samples take one byte
each, and its nodata value and samples are whole numbers from -128 to 255. A
negative number is written in two's complement. The record is the type byte, the
nodata byte and one byte for each sample.
-/
namespace RasterWkb

/-- Why a raster cannot be written. A message that would show an integer of more than 4300
digits says only that it cannot. -/
inductive EncodeFault
  /-- An integer of the header does not fit into its field. -/
  | headerField
  | descriptor (fault : DescriptorFault)
  | bandType (code : Int)
  | nodataRange (value : Int)
  | fraction
  | sampleRange (least greatest : Sample)
  /-- A NaN has no integer. -/
  | nanSample
  /-- A number is too large for a machine integer. -/
  | hugeSample
  /-- The counts are short: a record's own, and a product of two fields of a header. -/
  | sampleCount (band count : Nat) (expected : Int)
deriving DecidableEq, Repr

def EncodeFault.message : EncodeFault → String
  | headerField => "a header field is out of range"
  | descriptor fault => fault.message
  | bandType code =>
    IntegerText.showing [code] s!"cannot encode band type {code} with 8-bit samples"
  | nodataRange value =>
    IntegerText.showing [value] s!"nodata {value} does not fit in 8 bits"
  | fraction => "samples must be whole numbers"
  | sampleRange least greatest =>
    IntegerText.showing (least.shown ++ greatest.shown)
      s!"samples must be in -128..255, got {least.text}..{greatest.text}"
  | nanSample => "cannot convert float NaN to integer"
  | hugeSample => "a sample is too large for an integer"
  | sampleCount band count expected =>
    s!"band {band} has {count} samples, expected {expected}"

namespace BandRecord

/-- The least number that fits a sample byte. -/
def sampleMin : Int := -128

/-- The greatest number that fits a sample byte. -/
def sampleMax : Int := 255

/-- The byte of a number, in two's complement when it is negative. -/
def wrap (n : Int) : UInt8 :=
  UInt8.ofNat (n % 256).toNat

/-- Whether bands of the descriptor have samples of one byte in the raster. -/
def isWritable (d : Descriptor) : Bool :=
  !d.isOffline && d.pixelType?.any (·.byteSize == 1)

/-- An integer that fits into 64 bits with a sign. -/
def machineInteger (n : Int) : Except EncodeFault Int :=
  if -9223372036854775808 ≤ n ∧ n < 9223372036854775808 then .ok n else .error .hugeSample

/-- The integer of an element, its fraction dropped. -/
def integerOf : Sample → Except EncodeFault Int
  | .flag b => .ok (if b then 1 else 0)
  | .integer n => machineInteger n
  | .real d =>
    if d.isNaN then .error .nanSample
    else if d.isInfinite then .error .hugeSample
    else machineInteger d.truncate

/-- Refuses elements whose least or greatest is out of range. Elements that do
not compare with the bounds are not noticed here. -/
def checkRange (kind : ElementKind) : List Sample → Except EncodeFault Unit
  | [] => .ok ()
  | s :: ss =>
    let least := Sample.least kind.takesLast s ss
    let greatest := Sample.greatest kind.takesLast s ss
    if least.exact.lt (.ofInt sampleMin) || (Exact.ofInt sampleMax).lt greatest.exact then
      .error (.sampleRange least greatest)
    else .ok ()

/-- The bytes of the samples. -/
def payload (samples : Samples) : Except EncodeFault (List UInt8) := do
  let elements := samples.elements
  if samples.isReal && !elements.all Sample.isWhole then
    .error .fraction
  else do
    checkRange samples.kind elements
    let integers ← elements.mapM integerOf
    pure (integers.map wrap)

/-- The record of a band. -/
def encode (d : Descriptor) (nodata : Int) (samples : Samples) :
    Except EncodeFault (List UInt8) :=
  if !isWritable d then .error (.bandType d.code)
  else if nodata < sampleMin ∨ sampleMax < nodata then .error (.nodataRange nodata)
  else do
    let bytes ← payload samples
    match d.toByte with
    | .error fault => .error (.descriptor fault)
    | .ok kind => pure (kind :: wrap nodata :: bytes)

end BandRecord

end RasterWkb
