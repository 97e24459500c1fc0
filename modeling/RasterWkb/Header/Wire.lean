import RasterWkb.Reading

/-!
# The header as bytes

The header takes 61 bytes. The first one gives the byte order of the rest; any
value but zero means little-endian, and one is written for it. Reading stops as
early as it can: a version other than zero is refused before anything behind it
is read, a rotation right behind the skews.
-/
namespace RasterWkb.Header

/-- Bytes taken by a header. -/
def byteSize : Nat := 61

/-- The order that the first byte stands for. -/
def orderOf (mark : UInt8) : ByteOrder :=
  if mark = 0 then .big else .little

/-- The first byte for an order. -/
def markOf : ByteOrder → UInt8
  | .little => 1
  | .big => 0

@[simp] theorem orderOf_markOf (o : ByteOrder) : orderOf (markOf o) = o := by
  cases o <;> rfl

/-- Reports the five lines about an accepted header. -/
def describe (h : Header) : Reading Unit := do
  Reading.report (.format h.version h.numBands)
  Reading.report (.scale h.scaleX h.scaleY)
  Reading.report (.origin h.originX h.originY)
  Reading.report (.skew h.skewX h.skewY)
  Reading.report (.size h.srid h.width h.height)

/-- Reads a header and fixes the byte order. -/
def parse : Reading Header := do
  let mark ← Reading.uint8 .field
  let order := orderOf mark
  Reading.fixOrder order
  let version ← Reading.uint16
  Reading.require (version == 0) (.versionRejected version)
    (.decode (.unsupportedVersion version))
  let numBands ← Reading.uint16
  let scaleX ← Reading.float64
  let scaleY ← Reading.float64
  let originX ← Reading.float64
  let originY ← Reading.float64
  let skewX ← Reading.float64
  let skewY ← Reading.float64
  Reading.require (skewX.isZero && skewY.isZero) .rotationRejected
    (.decode (.unsupportedRotation skewX skewY))
  let srid ← Reading.int32
  let width ← Reading.uint16
  let height ← Reading.uint16
  let header : Header :=
    { version, numBands, scaleX, scaleY, originX, originY, skewX, skewY, srid, width, height,
      order }
  describe header
  pure header

/-- Whether an integer fits into an unsigned 16-bit field. -/
abbrev FitsUInt16 (n : Int) : Prop :=
  0 ≤ n ∧ n ≤ 65535

/-- Whether an integer fits into a signed 32-bit field. -/
abbrev FitsInt32 (n : Int) : Prop :=
  -2147483648 ≤ n ∧ n ≤ 2147483647

/-- Whether each integer of a header fits into its field. -/
abbrev Fits (h : Header) : Prop :=
  FitsUInt16 h.version ∧ FitsUInt16 h.numBands ∧ FitsInt32 h.srid ∧
    FitsUInt16 h.width ∧ FitsUInt16 h.height

/-- The bytes of a header whose integers fit. -/
def bytes (h : Header) : List UInt8 :=
  markOf h.order ::
    (h.order.encode 2 h.version.toNat ++ h.order.encode 2 h.numBands.toNat
      ++ h.order.encode 8 h.scaleX.pattern ++ h.order.encode 8 h.scaleY.pattern
      ++ h.order.encode 8 h.originX.pattern ++ h.order.encode 8 h.originY.pattern
      ++ h.order.encode 8 h.skewX.pattern ++ h.order.encode 8 h.skewY.pattern
      ++ h.order.encode 4 (Word.pattern32 h.srid)
      ++ h.order.encode 2 h.width.toNat ++ h.order.encode 2 h.height.toNat)

theorem length_bytes (h : Header) : h.bytes.length = byteSize := by
  simp [bytes, byteSize]

/-- The bytes of a header, if its integers fit into their fields. -/
def encode? (h : Header) : Option (List UInt8) :=
  if h.Fits then some h.bytes else none

end RasterWkb.Header
