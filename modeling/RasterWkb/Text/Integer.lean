import RasterWkb.Power
import RasterWkb.Text.Blank

/-!
# Integers as people write them

Plain text has at most a minus sign and digits, of which the first is zero only
if it stands alone. It is read as it stands.

Other text may have blanks at its ends, one sign, zeros in front, single
underscores between digits, and a fraction of zeros. It is brought into plain
form step by step: the blanks go first, then the sign, the zeros in front, the
fraction and the underscores. The zeros in front are taken off together with all
underscores among them, and a minus sign may stand directly behind them.

Integers with more than 4300 digits are neither read nor written. A text that
starts with so many digits, or with a minus sign and so many digits, is refused
as too long, whatever follows. One that gets there only in plain form is refused
as malformed.
-/
namespace RasterWkb.IntegerText

/-- Why a text is not an integer. -/
inductive Refusal
  | malformed
  | tooLong
deriving DecidableEq, Repr

/-- The most digits that an integer may have as text. -/
def longest : Nat := 4300

/-- The least number with too many digits. -/
def ceiling : Nat := 10 ^ longest

/-- Whether an integer has few enough digits to be written. -/
def isShort (n : Int) : Bool :=
  n.natAbs < ceiling

theorem isShort_of_natAbs_lt {n : Int} (h : n.natAbs < 2 ^ (64 : Nat)) : isShort n := by
  have small : 2 ^ (64 : Nat) ≤ 10 ^ (20 : Nat) := by decide
  have large : 10 ^ (20 : Nat) ≤ ceiling := Nat.pow_le_pow_right (by decide) (by decide)
  simpa [isShort] using Nat.lt_of_lt_of_le h (Nat.le_trans small large)

/-- What is said in place of a text that would show an integer with too many digits. -/
def tooLongToShow : String :=
  "Exceeds the limit (4300 digits) for integer string conversion; " ++
    "use sys.set_int_max_str_digits() to increase the limit"

/-- A text that shows integers, unless one of them cannot be written. -/
def showing (numbers : List Int) (text : String) : String :=
  if numbers.all isShort then text else tooLongToShow

/-- Whether a text starts with a minus sign, and the text behind its sign. -/
def unsign : List Char → Bool × List Char
  | '-' :: cs => (true, cs)
  | '+' :: cs => (false, cs)
  | cs => (false, cs)

/-- Passes over zeros and underscores. The first argument is the character just
passed: it stays if the text ends there or a point follows. -/
def behindZero? : Char → List Char → Option (List Char)
  | passed, [] => some [passed]
  | passed, c :: cs =>
    if c = '0' ∨ c = '_' then behindZero? c cs
    else if c.isDigit ∨ c = '-' then some (c :: cs)
    else if c = '.' then some (passed :: c :: cs)
    else none

/-- A text without the zeros in front. It has to start with a digit. -/
def unpad? : List Char → Option (List Char)
  | [] => none
  | c :: cs =>
    if c = '0' then behindZero? c cs
    else if c.isDigit then some (c :: cs)
    else none

/-- A text without its fraction, if that is a point with nothing but zeros behind it. -/
def dropFraction (cs : List Char) : List Char :=
  match cs.dropWhile (· != '.') with
  | _ :: zero :: zeros =>
    if (zero :: zeros).all (· == '0') then cs.takeWhile (· != '.') else cs
  | _ => cs

/-- Whether every underscore stands between two other characters. The first
argument tells whether one may stand here. -/
def separated : Bool → List Char → Bool
  | inside, [] => inside
  | inside, c :: cs => if c = '_' then inside && separated false cs else separated true cs

/-- A text without its underscores, if each stands between two other characters. -/
def join (cs : List Char) : List Char :=
  if separated false cs then cs.filter (· != '_') else cs

/-- The number of plain text without its sign. Too many digits are refused as such,
whatever follows them. -/
def magnitude : List Char → Except Refusal Nat
  | [] => .error .malformed
  | c :: cs =>
    let digits := (c :: cs).takeWhile Char.isDigit
    if c = '0' then if cs.isEmpty then .ok 0 else .error .malformed
    else if longest < digits.length then .error .tooLong
    else if c.isDigit ∧ cs.all Char.isDigit then .ok (Nat.ofDigitChars 10 digits 0)
    else .error .malformed

/-- The integer of plain text. -/
def plain : List Char → Except Refusal Int
  | '-' :: cs => (magnitude cs).map fun n => -(n : Int)
  | cs => (magnitude cs).map Int.ofNat

/-- A text in plain form, unless its start shows that it has none. -/
def tidy? (cs : List Char) : Option (List Char) :=
  let (minus, cs) := unsign (Blank.trim Blank.isSpace cs)
  (unpad? cs).map fun cs =>
    let cs := join (dropFraction cs)
    if minus then '-' :: cs else cs

/-- The integer of a text, read as it stands or else in plain form. -/
def read (text : String) : Except Refusal Int :=
  match plain text.toList with
  | .error .malformed =>
    match (tidy? text.toList).map plain with
    | some (.ok n) => .ok n
    | _ => .error .malformed
  | direct => direct

end RasterWkb.IntegerText
