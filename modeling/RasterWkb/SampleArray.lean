import RasterWkb.BandRecord

/-!
# Arrays of samples with a given type

The elements of an array have one type, and a sample takes the form of that type
when it is put into the array. An integer has to fit an integer type. A real
number loses its fraction there and wraps around where the type is narrow. In a
real type an integer becomes the nearest number, which has to be finite before it
is narrowed.
-/
namespace RasterWkb

/-- The types of array elements. -/
inductive ElementType
  | flag
  | signed (bits : Nat)
  | unsigned (bits : Nat)
  /-- Binary numbers of one of the formats up to the double. -/
  | real (precision : Precision)
  /-- Samples of any kind, each as it is given. -/
  | mixed
deriving DecidableEq, Repr

namespace ElementType

def kind : ElementType → ElementKind
  | flag => .flag
  | signed _ => .signed
  | unsigned _ => .unsigned
  | real precision => .real precision
  | mixed => .mixed

/-- An integer that has to lie in a range, the end of which does not belong to it. -/
def within (low high n : Int) : Except EncodeFault Sample :=
  if low ≤ n ∧ n < high then .ok (.integer n) else .error .hugeSample

/-- The integer that is left of a real number, if it is below the given one and
not below -2^63. -/
def cut (high : Int) (d : Double) : Except EncodeFault Int :=
  if d.isNaN then .error .nanSample
  else if d.isInfinite || d.truncate < -2 ^ (63 : Nat) || high ≤ d.truncate then .error .hugeSample
  else .ok d.truncate

/-- A sample as an element of the type. -/
def element : ElementType → Sample → Except EncodeFault Sample
  | signed bits, .integer n => within (-2 ^ (bits - 1)) (2 ^ (bits - 1)) n
  | signed bits, .real d => (cut (2 ^ (63 : Nat)) d).map fun n => .integer (n.bmod (2 ^ bits))
  | unsigned bits, .integer n => within 0 (2 ^ bits) n
  | unsigned bits, .real d => (cut (2 ^ (64 : Nat)) d).map fun n => .integer (n % 2 ^ bits)
  | real precision, .integer n =>
    match Double.ofInt? n with
    | some d => .ok (.real (precision.round d))
    | none => .error .hugeSample
  | type, s => .ok (type.kind.hold s)

end ElementType

namespace Samples

/-- The array of the type that holds the samples. -/
def ofList (type : ElementType) (members : List Sample) : Except EncodeFault Samples := do
  let elements ← members.mapM type.element
  pure (.array type.kind elements)

end Samples

end RasterWkb
