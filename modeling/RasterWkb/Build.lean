import RasterWkb.BandRecord
import RasterWkb.Header.Wire

/-!
# Building rasters

A raster is built from its size, its placement and its bands. Its header has
version zero and no rotation; the band records follow in order. The header is
checked first, then each band in turn: first by itself, then against the number
of pixels.
-/
namespace RasterWkb

/-- A band to be written. -/
structure BandSource where
  descriptor : Descriptor
  nodata : Int
  samples : Samples
deriving DecidableEq, Repr

/-- A raster to be written. -/
structure RasterSource where
  width : Int
  height : Int
  bands : List BandSource
  scaleX : Double
  scaleY : Double
  originX : Double
  originY : Double
  srid : Int
  order : ByteOrder
deriving DecidableEq, Repr

namespace RasterSource

def header (s : RasterSource) : Header where
  version := 0
  numBands := s.bands.length
  scaleX := s.scaleX
  scaleY := s.scaleY
  originX := s.originX
  originY := s.originY
  skewX := .zero
  skewY := .zero
  srid := s.srid
  width := s.width
  height := s.height
  order := s.order

/-- The record of the band with the given index in a raster of so many pixels. -/
def record (area : Int) (index : Nat) (b : BandSource) : Except EncodeFault (List UInt8) := do
  let bytes ← BandRecord.encode b.descriptor b.nodata b.samples
  let count := bytes.length - 2
  if (count : Int) = area then pure bytes
  else .error (.sampleCount index count area)

/-- The records of bands, the first of which has the given index. -/
def records (area : Int) (index : Nat) : List BandSource → Except EncodeFault (List UInt8)
  | [] => pure []
  | b :: bs => do
    let first ← record area index b
    let others ← records area (index + 1) bs
    pure (first ++ others)

/-- The bytes of a raster. -/
def build (s : RasterSource) : Except EncodeFault (List UInt8) :=
  match s.header.encode? with
  | none => .error .headerField
  | some header => do
    let bands ← records (s.width * s.height) 0 s.bands
    pure (header ++ bands)

end RasterSource

end RasterWkb
