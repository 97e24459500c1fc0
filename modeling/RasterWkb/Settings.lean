import RasterWkb.Double
import RasterWkb.Text.Integer

/-!
# Decoder settings and their validation

There are two settings. Whether records of bands that are left out are passed
over, and the size of the largest input. A value for a setting may come as a
flag, an integer, a real number, a text or something else; the readers here say
which values are accepted. A real number counts as the integer that it is.
Integers may be of any size, but a real number is taken only below 2^63. The size
limit is positive in every settings value, by its type.
-/
namespace RasterWkb

/-- The settings of a decoder. -/
structure Settings where
  /-- Whether the whole record of a band that is left out is passed over. -/
  skipUnsupportedPayload : Bool
  /-- The size of the largest input. -/
  maxInputBytes : Nat
  maxInputBytes_pos : 0 < maxInputBytes
deriving DecidableEq, Repr

namespace Settings

/-- Nothing is passed over, and inputs have at most 512 MiB. -/
def standard : Settings :=
  ⟨false, 536870912, by decide⟩

/-- The settings by name. -/
inductive Field
  | skipUnsupportedPayload
  | maxInputBytes
deriving DecidableEq, Repr

def Field.name : Field → String
  | skipUnsupportedPayload => "skip_unsupported_payload"
  | maxInputBytes => "max_input_bytes"

def Field.all : List Field := [skipUnsupportedPayload, maxInputBytes]

/-- A value offered for a setting. -/
inductive Value
  | null
  | flag (value : Bool)
  | integer (value : Int)
  | real (value : Double)
  | text (value : String)
  /-- A list or a table. -/
  | compound
deriving DecidableEq, Repr

/-- Why a value is not accepted. -/
inductive Objection
  | extraForbidden
  | boolParsing
  | boolType
  | intFromFloat
  | intType
  | intParsing
  | intParsingSize
  | finiteNumber
  | greaterThan
  | frozenInstance
deriving DecidableEq, Repr

def Objection.code : Objection → String
  | extraForbidden => "extra_forbidden"
  | boolParsing => "bool_parsing"
  | boolType => "bool_type"
  | intFromFloat => "int_from_float"
  | intType => "int_type"
  | intParsing => "int_parsing"
  | intParsingSize => "int_parsing_size"
  | finiteNumber => "finite_number"
  | greaterThan => "greater_than"
  | frozenInstance => "frozen_instance"

/-- An objection and the name of the setting that it concerns. -/
structure Problem where
  field : String
  objection : Objection
deriving DecidableEq, Repr

/-- The texts that stand for no, in lower case. -/
def noWords : List String := ["0", "off", "f", "false", "n", "no"]

/-- The texts that stand for yes, in lower case. -/
def yesWords : List String := ["1", "on", "t", "true", "y", "yes"]

/-- Reads a flag from a text without regard to the case of ASCII letters. -/
def flagOfText (text : String) : Except Objection Bool :=
  let word := String.ofList (text.toList.map Char.toLower)
  if noWords.contains word then .ok false
  else if yesWords.contains word then .ok true
  else .error .boolParsing

/-- Zero and one stand for no and yes. -/
def flagOfInt (n : Int) : Except Objection Bool :=
  if n = 0 then .ok false else if n = 1 then .ok true else .error .boolParsing

/-- The integer that a real number is, if its distance from zero is below 2^63. -/
def intOfReal (d : Double) : Except Objection Int :=
  if d.isNaN || d.isInfinite then .error .finiteNumber
  else if !d.isWhole then .error .intFromFloat
  else if d.truncate.natAbs < 2 ^ (63 : Nat) then .ok d.truncate
  else .error .intParsingSize

/-- Whether an integer fits into 64 bits with a sign. -/
def isLong (n : Int) : Bool :=
  -2 ^ (63 : Nat) ≤ n && n < 2 ^ (63 : Nat)

/-- Reads a flag. Of the numbers, those that are no integers of moderate size are
not of the right kind. -/
def readFlag : Value → Except Objection Bool
  | .flag b => .ok b
  | .integer n => if isLong n then flagOfInt n else .error .boolType
  | .real d =>
    match intOfReal d with
    | .ok n => flagOfInt n
    | .error _ => .error .boolType
  | .text s => flagOfText s
  | .null | .compound => .error .boolType

/-- A size that is not below one. -/
abbrev Limit := { n : Nat // 0 < n }

/-- Accepts positive integers as sizes. -/
def limitOfInt (n : Int) : Except Objection Limit :=
  if h : 0 < n then .ok ⟨n.toNat, by omega⟩ else .error .greaterThan

/-- What stands against a text that is not an integer. -/
def refusal : IntegerText.Refusal → Objection
  | .malformed => .intParsing
  | .tooLong => .intParsingSize

/-- Reads a size. Flags count as one and zero. -/
def readLimit : Value → Except Objection Limit
  | .flag b => limitOfInt (if b then 1 else 0)
  | .integer n => limitOfInt n
  | .real d =>
    match intOfReal d with
    | .ok n => limitOfInt n
    | .error objection => .error objection
  | .text s =>
    match IntegerText.read s with
    | .ok n => limitOfInt n
    | .error r => .error (refusal r)
  | .null | .compound => .error .intType

end Settings

end RasterWkb
