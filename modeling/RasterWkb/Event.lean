import RasterWkb.Band
import RasterWkb.Header

/-!
# What a decoding reports

Events are the diagnostics of a decoding, in the order in which they arise. Each
is written as one log line: its level, its topic and its message.
-/
namespace RasterWkb

inductive Level
  | debug
  | warning
deriving DecidableEq, Repr

def Level.text : Level → String
  | debug => "DEBUG"
  | warning => "WARNING"

/-- The part of the decoding that an event belongs to. -/
inductive Topic
  | header
  | bands
  | raster
deriving DecidableEq, Repr

def Topic.text : Topic → String
  | header => "pgraster.codec.header"
  | bands => "pgraster.codec.planes"
  | raster => "pgraster.codec.reader"

/-- One diagnostic. -/
inductive Event
  | versionRejected (version : Int)
  | rotationRejected
  | format (version numBands : Int)
  | scale (x y : Double)
  | origin (x y : Double)
  | skew (x y : Double)
  | size (srid width height : Int)
  | extent (extent : Extent)
  | bandCountRejected (count : Int)
  | band (index : Nat) (descriptor : Descriptor)
  | bandLeftOut (issue : BandIssue)
  | nodataIgnored (value : UInt8)
  | nodataDiffers (band : Nat) (value first : UInt8)
  | walkEnded (band : Nat)
deriving DecidableEq, Repr

namespace Event

def flagText : Bool → String
  | true => "True"
  | false => "False"

def level : Event → Level
  | format .. | scale .. | origin .. | skew .. | size .. | extent _ | band .. => .debug
  | versionRejected _ | rotationRejected | bandCountRejected _ | bandLeftOut _
  | nodataIgnored _ | nodataDiffers .. | walkEnded _ => .warning

def topic : Event → Topic
  | versionRejected _ | rotationRejected | format .. | scale .. | origin .. | skew ..
  | size .. => .header
  | extent _ | bandCountRejected _ => .raster
  | band .. | bandLeftOut _ | nodataIgnored _ | nodataDiffers .. | walkEnded _ => .bands

def message : Event → String
  | versionRejected version => s!"WKB version {version} unsupported"
  | rotationRejected => "raster rotation is not supported"
  | format version numBands => s!"version={version} numBands={numBands}"
  | scale x y => s!"scaleX={x.text} scaleY={y.text}"
  | origin x y => s!"ipX={x.text} ipY={y.text}"
  | skew x y => s!"skewX={x.text} skewY={y.text}"
  | size srid width height => s!"srid={srid} size={width}x{height}"
  | extent e => s!"raster extent={e.text}"
  | bandCountRejected count => s!"raster with {count} bands is not supported"
  | band index d =>
    s!"band {index} type:{d.code} offline:{flagText d.isOffline} "
      ++ s!"hasnodata:{flagText d.hasNodata}"
  | bandLeftOut issue => issue.message
  | nodataIgnored value => s!"nodata value {value.toNat} unsupported"
  | nodataDiffers index value first =>
    s!"band {index} nodataval {value.toNat} != band 0 nodataval {first.toNat}"
  | walkEnded index =>
    s!"cannot locate the band after band {index}, remaining bands left blank"

/-- The log line of an event. -/
def line (e : Event) : String :=
  s!"{e.level.text} {e.topic.text} {e.message}"

theorem line_eq (e : Event) :
    e.line = e.level.text ++ " " ++ e.topic.text ++ " " ++ e.message := rfl

end Event

end RasterWkb
