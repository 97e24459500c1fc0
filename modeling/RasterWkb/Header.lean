import RasterWkb.Fault

/-!
# The raster header

A header gives the number of bands, the placement of the pixel grid, its spatial
reference and its size. Its integers are not bounded here: which of them fit
into the fields of the format is checked when a header is written.
-/
namespace RasterWkb

/-- The corner of a raster and the corner across from it. -/
structure Extent where
  x : Double
  y : Double
  farX : Double
  farY : Double
deriving DecidableEq, Repr

def Extent.text (e : Extent) : String :=
  s!"({e.x.text}, {e.y.text}, {e.farX.text}, {e.farY.text})"

/-- The header of a raster. -/
structure Header where
  version : Int
  numBands : Int
  /-- Pixel width and height in geographical units. -/
  scaleX : Double
  scaleY : Double
  /-- The outer corner of the first pixel. -/
  originX : Double
  originY : Double
  /-- Rotation terms. -/
  skewX : Double
  skewY : Double
  /-- Spatial reference identifier. -/
  srid : Int
  /-- Pixel columns and rows. -/
  width : Int
  height : Int
  /-- The order of the multi-byte fields. -/
  order : ByteOrder
deriving DecidableEq, Repr

namespace Header

/-- Number of pixels, when neither size is negative. -/
def area (h : Header) : Int :=
  h.width * h.height

/-- Neither size is negative, and the pixels are so many. -/
structure HasArea (h : Header) (area : Nat) : Prop where
  width : 0 ≤ h.width
  height : 0 ≤ h.height
  area_eq : h.area = area

/-- One coordinate of the far corner: the size becomes a double, then one
multiplication and one addition are rounded each. -/
def far (origin : Double) (size : Int) (scale : Double) : Except Fault Double :=
  match Double.ofInt? size with
  | some d => .ok (origin + d * scale)
  | none => .error .sizeTooLarge

/-- The geographic extent. -/
def extent (h : Header) : Except Fault Extent :=
  match far h.originX h.width h.scaleX with
  | .error fault => .error fault
  | .ok farX =>
    match far h.originY h.height h.scaleY with
    | .error fault => .error fault
    | .ok farY => .ok ⟨h.originX, h.originY, farX, farY⟩

end Header

end RasterWkb
