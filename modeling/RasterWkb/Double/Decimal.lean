import RasterWkb.Double

/-!
# Decimal text of a double

A finite double is written with the fewest significant digits that read back as
the same double; of several such numbers the nearest is taken, and of two
equally near ones the even one. The search tests, for one digit, two digits and
so on, the two neighbours of the value on that decimal grid. Everything is
compared in natural numbers, after both sides were multiplied by the same powers
of two and ten.

How the digits are laid out is a separate matter, held in one record of type
Layout. The way back, from a decimal to the nearest double, is here too.
-/
namespace RasterWkb

/-- The decimal number that is the first field times ten to the power of the second. -/
structure Decimal where
  digits : Nat
  unit : Int
deriving DecidableEq, Repr

namespace Decimal

/-- Digits in the decimal text of a number; none for zero. -/
def length (n : Nat) : Nat :=
  if n = 0 then 0 else (Nat.toDigits 10 n).length

/-- The exponent of the leading decimal digit of a positive dyadic number. -/
def leading (mantissa : Nat) (exponent : Int) : Int :=
  let above := mantissa * 2 ^ exponent.toNat
  let below := 2 ^ (-exponent).toNat
  if below ≤ above then (length (above / below) : Int) - 1
  else -(length ((below - 1) / above) : Int)

/-- The quarter units of a binary grid between which numbers round to a given one. -/
structure Interval where
  low : Nat
  value : Nat
  high : Nat
  closed : Bool
deriving DecidableEq, Repr

/-- Numbers between half a unit below and half a unit above round to the
mantissa. Where the unit below is half as large, so is that distance. The ends
belong to the interval when the mantissa is even. -/
def Interval.around (mantissa : Nat) (exponent : Int) : Interval :=
  let lower := if mantissa = 2 ^ (52 : Nat) ∧ -1074 < exponent then 1 else 2
  ⟨4 * mantissa - lower, 4 * mantissa, 4 * mantissa + 2, mantissa % 2 = 0⟩

/-- The interval with all its points multiplied by a factor. -/
def Interval.scale (i : Interval) (factor : Nat) : Interval :=
  ⟨i.low * factor, i.value * factor, i.high * factor, i.closed⟩

def Interval.holds (i : Interval) (n : Nat) : Bool :=
  if i.closed then i.low ≤ n && n ≤ i.high else i.low < n && n < i.high

/-- The neighbour of the value among the multiples of a step that lies in the
interval: the nearer one when both do, the even multiple when they tie. -/
def Interval.multiple? (i : Interval) (step : Nat) : Option Nat :=
  let below := i.value / step
  let above := below + 1
  match i.holds (below * step), i.holds (above * step) with
  | false, false => none
  | true, false => some below
  | false, true => some above
  | true, true =>
    let down := i.value - below * step
    let up := above * step - i.value
    if down < up || (down == up && below % 2 == 0) then some below else some above

/-- The number on the grid of a given decimal unit that reads back as the dyadic
number, if there is one. -/
def onGrid? (mantissa : Nat) (exponent unit : Int) : Option Decimal :=
  let interval := (Interval.around mantissa exponent).scale
    (2 ^ (exponent - 2).toNat * 10 ^ (-unit).toNat)
  let step := 2 ^ (2 - exponent).toNat * 10 ^ unit.toNat
  (interval.multiple? step).map (⟨·, unit⟩)

/-- The shortest decimal that reads back as the dyadic number. Seventeen digits
always suffice. -/
def shortest (mantissa : Nat) (exponent : Int) : Decimal :=
  let top := leading mantissa exponent
  ((List.range 17).findSome? fun (n : Nat) => onGrid? mantissa exponent (top - n)).getD ⟨0, 0⟩

/-- How digits and a decimal exponent are laid out as text. -/
structure Layout where
  /-- The least exponent written without an exponent part. -/
  lowest : Int
  /-- The least exponent above it that needs an exponent part again. -/
  ceiling : Int
  /-- What follows a whole number that has no exponent part. -/
  whole : List Char
  /-- The least number of digits of an exponent. -/
  exponentDigits : Nat

/-- Exponents from -4 to 15 are positional, a whole number keeps one zero after
its point, and an exponent has a sign and at least two digits. -/
def Layout.standard : Layout := ⟨-4, 16, ['.', '0'], 2⟩

/-- The significant digits without the zeros at their end. -/
def significant (n : Nat) : List Char :=
  ((Nat.toDigits 10 n).reverse.dropWhile (· == '0')).reverse

/-- An exponent with its sign, padded with zeros to the least number of digits. -/
def Layout.exponent (l : Layout) (e : Int) : List Char :=
  let digits := Nat.toDigits 10 e.natAbs
  'e' :: (if e < 0 then '-' else '+')
    :: (List.replicate (l.exponentDigits - digits.length) '0' ++ digits)

/-- The text of a positive decimal. -/
def Layout.render (l : Layout) (d : Decimal) : List Char :=
  let leading := d.unit + length d.digits - 1
  let digits := significant d.digits
  if l.lowest ≤ leading ∧ leading < l.ceiling then
    if leading < 0 then
      '0' :: '.' :: (List.replicate (-leading - 1).toNat '0' ++ digits)
    else
      let before := leading.toNat + 1
      if digits.length ≤ before then
        digits ++ List.replicate (before - digits.length) '0' ++ l.whole
      else
        digits.take before ++ '.' :: digits.drop before
  else
    match digits with
    | [] => []
    | [c] => c :: l.exponent leading
    | c :: cs => c :: '.' :: (cs ++ l.exponent leading)

end Decimal

namespace Double

/-- The double nearest to a decimal, ties to even. A quotient by a power of ten is
taken to at least 66 bits, and one more bit tells whether there is a remainder,
so that rounding it rounds the exact number. A decimal whose first digit is more
than 400 places away from the point is too large or too small for any double. -/
def ofDecimal (negative : Bool) (d : Decimal) : Double :=
  let top := d.unit + Decimal.length d.digits
  if d.digits = 0 ∨ top < -400 then nearest negative 0 0
  else if 400 < top then ofMagnitude negative infinityPattern
  else
    let above := d.digits * 10 ^ d.unit.toNat
    let below := 10 ^ (-d.unit).toNat
    let places : Nat := 67 + below.log2
    let scaled := above * 2 ^ places
    let rest : Nat := if scaled % below = 0 then 0 else 1
    nearest negative (2 * (scaled / below) + rest) (-(places : Int) - 1)

/-- The text of the absolute value of a double that is not a NaN. -/
def absoluteText (d : Double) : List Char :=
  if d.isInfinite then ['i', 'n', 'f']
  else if d.isZero then '0' :: Decimal.Layout.standard.whole
  else Decimal.Layout.standard.render (Decimal.shortest d.parts.1 d.parts.2)

/-- The decimal text of a double. A NaN has no sign. -/
def text (d : Double) : String :=
  if d.isNaN then "nan"
  else if d.isNegative then String.ofList ('-' :: d.absoluteText)
  else String.ofList d.absoluteText

end Double

end RasterWkb
