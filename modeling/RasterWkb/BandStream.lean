import RasterWkb.Header.Wire

/-!
# Reading band records

A band record is a type byte, a nodata value and one sample for each pixel. A
band is decoded when it is stored in the raster and its samples are bytes; its
samples then fill a channel. Any other band is left out and reported.

A left out band normally gives up only its type byte and one nodata byte, and
the next record is looked for right behind them. When records are to be passed
over, the whole record is, provided that its size is known; when it is not, the
remaining bands are left alone.
-/
namespace RasterWkb.BandStream

/-- Reads the type byte and the first nodata byte of a band. -/
def descriptor (index : Nat) : Reading (Descriptor × UInt8) := do
  let kind ← Reading.uint8 (.bandType index)
  let band := Descriptor.ofByte kind
  Reading.report (.band index band)
  let nodata ← Reading.uint8 (.nodata index)
  pure (band, nodata)

/-- What prevents a band from being decoded. -/
def issue? (index : Nat) (band : Descriptor) : Option BandIssue :=
  if band.isOffline then some (.offline index)
  else if band.isSupported then none
  else some (.unsupportedPixelType index band.code)

/-- Passes over the rest of a record whose size is known; says whether it is. -/
def passTail (index : Nat) (band : Descriptor) (area : Int) : Reading Bool :=
  match band.tail? area with
  | none => pure false
  | some size => do
    Reading.skip (.passed index) size
    pure true

/-- Reads the samples of a band. A negative size is noticed only when they have been
read. -/
def plane (index : Nat) (h : Header) : Reading (List UInt8) := do
  let samples ← Reading.bytes (.samples index) h.area
  if 0 ≤ h.width ∧ 0 ≤ h.height then
    pure samples
  else
    Reading.fail .negativeSize

/-- Reads the only band of a raster into the three color channels. -/
def grayscale (h : Header) (passing : Bool) : Reading (List BandIssue) := do
  let (band, nodata) ← descriptor 0
  match issue? 0 band with
  | some issue => do
    Reading.report (.bandLeftOut issue)
    if passing then do
      let _ ← passTail 0 band h.area
      pure [issue]
    else
      pure [issue]
  | none => do
    Reading.reportIf band.hasNodata (.nodataIgnored nodata)
    let samples ← plane 0 h
    Reading.paint .red samples
    Reading.paint .green samples
    Reading.paint .blue samples
    pure []

/-- Reports a decodable band whose nodata byte differs from that of the first band. -/
def compareNodata (index : Nat) (value : UInt8) : Option UInt8 → Reading Unit
  | none => pure ()
  | some first => Reading.reportIf (value != first) (.nodataDiffers index value first)

/-- Fills the channel of a band. A band without a channel is noticed only when
its samples have been read. -/
def fill (index : Nat) (h : Header) : Reading Unit := do
  let samples ← plane index h
  match Channel.ofBand? index with
  | some channel => Reading.paint channel samples
  | none => Reading.fail (.noChannel index)

/-- Deals with a band that is left out; says whether the next band can be read. -/
def leaveOut (h : Header) (passing : Bool) (index : Nat) (band : Descriptor)
    (issue : BandIssue) : Reading Bool := do
  Reading.report (.bandLeftOut issue)
  if passing then do
    let located ← passTail index band h.area
    Reading.reportIf (!located) (.walkEnded index)
    pure located
  else
    pure true

/-- Reads the given number of bands, the first of them with the given index. The
nodata byte of band 0 is passed on once it is known. -/
def bandsFrom (h : Header) (passing : Bool) (first : Option UInt8) (index : Nat) :
    Nat → Reading (List BandIssue)
  | 0 => pure []
  | left + 1 => do
    let (band, nodata) ← descriptor index
    match issue? index band with
    | some issue => do
      let goesOn ← leaveOut h passing index band issue
      if goesOn then do
        let issues ← bandsFrom h passing (some (first.getD nodata)) (index + 1) left
        pure (issue :: issues)
      else
        pure [issue]
    | none => do
      compareNodata index nodata first
      fill index h
      bandsFrom h passing (some (first.getD nodata)) (index + 1) left

/-- Reads each band of a raster into the channel of its index. -/
def rgb (h : Header) (passing : Bool) : Reading (List BandIssue) :=
  bandsFrom h passing none 0 h.numBands.toNat

end RasterWkb.BandStream
