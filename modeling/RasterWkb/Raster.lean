import RasterWkb.BandStream
import RasterWkb.Settings

/-!
# Decoding rasters

A raster of one band becomes a gray image, one of three bands a colored one. The
image starts out opaque and white, and what the bands paint replaces that. The
alpha channel and the channels of bands that are left out stay as they were.

A buffer above the size limit is refused before anything is read.
-/
namespace RasterWkb

/-- A decoded raster. -/
structure Raster where
  extent : Extent
  width : Int
  height : Int
  image : Image
  srid : Int
  /-- Why bands were left out, in their order. -/
  skipped : List BandIssue
deriving DecidableEq, Repr

namespace Raster

/-- Reads the bands of a raster, whose number must be one or three. -/
def readBands (h : Header) (passing : Bool) : Reading (List BandIssue) :=
  if h.numBands = 1 then BandStream.grayscale h passing
  else if h.numBands = 3 then BandStream.rgb h passing
  else Reading.reject (.bandCountRejected h.numBands) (.decode (.unsupportedBandCount h.numBands))

/-- Reads a raster that is small enough. -/
def readBody (passing : Bool) : Reading Raster := do
  let header ← Header.parse
  let extent ← Reading.ofExcept header.extent
  Reading.report (.extent extent)
  let (skipped, trace) ← Reading.traced (readBands header passing)
  pure
    { extent
      width := header.width
      height := header.height
      image := trace.paintOn (Image.blank header.area.toNat)
      srid := header.srid
      skipped }

/-- Reads a raster. -/
def read (s : Settings) : Reading Raster := do
  let size ← Reading.remaining
  if s.maxInputBytes < size then
    Reading.fail (.decode (.inputTooLarge size s.maxInputBytes))
  else
    readBody s.skipUnsupportedPayload

/-- Decodes a buffer. -/
def decode (s : Settings) (bytes : List UInt8) : Run Raster :=
  (read s).run (Cursor.start bytes none)

end Raster

end RasterWkb
