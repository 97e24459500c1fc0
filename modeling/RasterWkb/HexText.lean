import RasterWkb.Text.Blank

/-!
# Bytes written as hexadecimal text

Two digits of either case make a byte, the high one first. The text may stand
between blanks, and one escape, a backslash and an x of either case, may stand
before the digits. Nothing else is taken off: a blank or a second escape behind
the escape is refused.
-/
namespace RasterWkb

/-- Why a text does not stand for bytes. The first that applies is named. -/
inductive HexFault
  | nonAscii
  | oddLength
  | nonDigit
deriving DecidableEq, Repr

def HexFault.message : HexFault → String
  | nonAscii => "string argument should contain only ASCII characters"
  | oddLength => "Odd-length string"
  | nonDigit => "Non-hexadecimal digit found"

namespace HexText

/-- The value of a digit. -/
def digit? (c : Char) : Option Nat :=
  if '0' ≤ c ∧ c ≤ '9' then some (c.toNat - '0'.toNat)
  else if 'a' ≤ c ∧ c ≤ 'f' then some (c.toNat - 'a'.toNat + 10)
  else if 'A' ≤ c ∧ c ≤ 'F' then some (c.toNat - 'A'.toNat + 10)
  else none

/-- The bytes of a text of digits. -/
def digits : List Char → Except HexFault (List UInt8)
  | [] => .ok []
  | [_] => .error .oddLength
  | high :: low :: rest =>
    match digit? high, digit? low with
    | some h, some l => (digits rest).map (UInt8.ofNat (16 * h + l) :: ·)
    | _, _ => .error .nonDigit

/-- A text without one leading escape. -/
def unescape : List Char → List Char
  | '\\' :: 'x' :: rest => rest
  | '\\' :: 'X' :: rest => rest
  | cs => cs

/-- The part of a text that has to consist of digits. -/
def body (text : String) : List Char :=
  unescape (Blank.trim Blank.isSpaceOrSeparator text.toList)

/-- The bytes that a text stands for. -/
def decode (text : String) : Except HexFault (List UInt8) :=
  let cs := body text
  if cs.any (128 ≤ ·.toNat) then .error .nonAscii
  else if cs.length % 2 = 1 then .error .oddLength
  else digits cs

/-- The lower-case digit of a number below 16. -/
def lowerDigit (n : Nat) : Char :=
  if n < 10 then Char.ofNat ('0'.toNat + n) else Char.ofNat ('a'.toNat + (n - 10))

/-- The lower-case digits of bytes. -/
def encode (bytes : List UInt8) : List Char :=
  bytes.flatMap fun b => [lowerDigit (b.toNat / 16), lowerDigit (b.toNat % 16)]

theorem digit?_lowerDigit {n : Nat} (h : n < 16) : digit? (lowerDigit n) = some n := by
  have all : ∀ k : Fin 16, digit? (lowerDigit k) = some k.val := by decide
  exact all ⟨n, h⟩

end HexText

end RasterWkb
