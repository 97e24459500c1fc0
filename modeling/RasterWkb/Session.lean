import RasterWkb.Raster

/-!
# Sessions on one stream

A session goes through a list of steps on one cursor, one after another, also
behind a step that failed. The planes painted by its steps go to one image, and
where a step paints, the sizes in its header are those of the image.
-/
namespace RasterWkb

/-- One step of a session. -/
inductive Step
  | uint8
  | uint16
  | uint32
  | int32
  | float64
  | bytes (count : Int)
  | skip (count : Int)
  | order (order : ByteOrder)
  | header
  | grayscale (header : Header) (passing : Bool)
  | rgb (header : Header) (passing : Bool)
  | raster (settings : Settings)
deriving DecidableEq, Repr

/-- What a step gives. -/
inductive StepValue
  | nothing
  | integer (value : Int)
  | real (value : Double)
  | bytes (value : List UInt8)
  | header (value : Header)
  | issues (value : List BandIssue)
  | raster (value : Raster)
deriving DecidableEq, Repr

/-- The reading that a step performs. -/
def Step.reading : Step → Reading StepValue
  | uint8 => do
    let b ← Reading.uint8 .field
    pure (.integer b.toNat)
  | uint16 => do
    let n ← Reading.uint16
    pure (.integer n)
  | uint32 => do
    let n ← Reading.uint32
    pure (.integer n)
  | int32 => do
    let n ← Reading.int32
    pure (.integer n)
  | float64 => do
    let d ← Reading.float64
    pure (.real d)
  | bytes count => do
    let bs ← Reading.bytes .field count
    pure (.bytes bs)
  | skip count => do
    Reading.skip .field count
    pure .nothing
  | order o => do
    Reading.fixOrder o
    pure .nothing
  | header => do
    let h ← Header.parse
    pure (.header h)
  | grayscale h passing => do
    let issues ← BandStream.grayscale h passing
    pure (.issues issues)
  | rgb h passing => do
    let issues ← BandStream.rgb h passing
    pure (.issues issues)
  | raster settings => do
    let r ← Raster.read settings
    pure (.raster r)

/-- Whether a step paints on the image of its session. -/
def Step.paints : Step → Bool
  | grayscale .. | rgb .. => true
  | _ => false

/-- A cursor and the image that steps paint on. -/
structure Session where
  cursor : Cursor
  image : Image
deriving DecidableEq, Repr

/-- What a step came to, and the session after it. -/
structure StepOutcome where
  run : Run StepValue
  session : Session

namespace Session

/-- A raster read by a step has an image of its own. -/
def advance (s : Session) (step : Step) : StepOutcome :=
  let run := step.reading.run s.cursor
  let image := if step.paints then run.trace.paintOn s.image else s.image
  ⟨run, ⟨run.cursor, image⟩⟩

/-- The outcomes of steps in turn. -/
def outcomes (s : Session) : List Step → List StepOutcome
  | [] => []
  | step :: steps =>
    let outcome := s.advance step
    outcome :: outcome.session.outcomes steps

end Session

end RasterWkb
