import RasterWkb.Double.Decimal

/-!
# Samples and the kind of their elements

Samples to be written are flags, integers of any size and doubles. An array of
them has one kind of element, and each element is held in the form of that kind.
The kind of a plain list is the join of the kinds of its members: integers that
fit into 64 bits are signed or unsigned words, the two together are doubles, a
double turns the words and flags beside it into doubles, and one integer that
fits no word leaves every member as it is.

Members are compared by their exact values. A NaN is not comparable with
anything, so the least and greatest of a list that is left as it is depend on
where its NaNs are.
-/
namespace RasterWkb

/-- One sample. -/
inductive Sample
  | flag (value : Bool)
  | integer (value : Int)
  | real (value : Double)
deriving DecidableEq, Repr

/-- What a sample is worth: an integer times a power of two, an infinity or
nothing that compares. -/
inductive Exact
  | finite (mantissa exponent : Int)
  | infinite (negative : Bool)
  | nan
deriving DecidableEq, Repr

namespace Exact

def ofInt (n : Int) : Exact :=
  finite n 0

def le : Exact → Exact → Bool
  | nan, _ => false
  | _, nan => false
  | infinite true, _ => true
  | _, infinite false => true
  | infinite false, _ => false
  | _, infinite true => false
  | finite m e, finite n f =>
    let unit := min e f
    m * 2 ^ (e - unit).toNat ≤ n * 2 ^ (f - unit).toNat

def lt (a b : Exact) : Bool :=
  a.le b && !b.le a

theorem le_ofInt (m n : Int) : (ofInt m).le (ofInt n) = decide (m ≤ n) := by
  simp [ofInt, le]

end Exact

namespace Sample

def exact : Sample → Exact
  | flag b => .ofInt (if b then 1 else 0)
  | integer n => .ofInt n
  | real d =>
    if d.isNaN then .nan
    else if d.isInfinite then .infinite d.isNegative
    else
      let p := d.parts
      .finite (if d.isNegative then -Int.ofNat p.1 else Int.ofNat p.1) p.2

def text : Sample → String
  | flag true => "True"
  | flag false => "False"
  | integer n => toString n
  | real d => d.text

/-- The integers that the text of a sample shows. -/
def shown : Sample → List Int
  | integer n => [n]
  | _ => []

/-- Whether the sample is a whole number. An infinity counts as one. -/
def isWhole : Sample → Bool
  | real d => d.isWhole
  | _ => true

/-- The least member, as long as all compare. The flag tells whether the last of
equal members is taken, not the first. -/
def least (last : Bool) (first : Sample) (others : List Sample) : Sample :=
  others.foldl (fun acc s =>
    if if last then acc.exact.lt s.exact else acc.exact.le s.exact then acc else s) first

/-- The greatest member, likewise. -/
def greatest (last : Bool) (first : Sample) (others : List Sample) : Sample :=
  others.foldl (fun acc s =>
    if if last then s.exact.lt acc.exact else s.exact.le acc.exact then acc else s) first

end Sample

/-- The kinds of array elements. Signed and unsigned words are of any width up to 64 bits. -/
inductive ElementKind
  | flag
  | signed
  | unsigned
  /-- Binary numbers that are doubles or narrower. Those of an extended format have no kind
  here: what is shown of every real kind is shown of these three formats. -/
  | real (precision : Precision)
  /-- Elements of any kind, each as it was given. -/
  | mixed
deriving DecidableEq, Repr

namespace ElementKind

/-- Whether the last of equal elements counts as the least or greatest. This shows
in zeros of different sign. -/
def takesLast : ElementKind → Bool
  | real .single | real .double => true
  | _ => false

/-- The kind of a lone member of a list. -/
def ofSample : Sample → ElementKind
  | .flag _ => flag
  | .integer n =>
    if -9223372036854775808 ≤ n ∧ n < 9223372036854775808 then signed
    else if 0 ≤ n ∧ n < 18446744073709551616 then unsigned
    else mixed
  | .real _ => real .double

/-- The kind that takes in members of two kinds. -/
def join : ElementKind → ElementKind → ElementKind
  | mixed, _ => mixed
  | _, mixed => mixed
  | flag, k => k
  | k, flag => k
  | signed, signed => signed
  | unsigned, unsigned => unsigned
  | real p, real q => if p = q then real p else real .double
  | _, _ => real .double

/-- The kind of a list; an empty one has doubles. -/
def ofList : List Sample → ElementKind
  | [] => real .double
  | s :: ss => ss.foldl (fun kind s => kind.join (ofSample s)) (ofSample s)

/-- A sample in the form of the kind. -/
def hold : ElementKind → Sample → Sample
  | flag, .integer n => .flag (n != 0)
  | flag, .real d => .flag (!d.isZero)
  | flag, s => s
  | signed, .flag b => .integer (if b then 1 else 0)
  | signed, .real d => .integer d.truncate
  | signed, s => s
  | unsigned, .flag b => .integer (if b then 1 else 0)
  | unsigned, .real d => .integer d.truncate
  | unsigned, s => s
  | real p, .flag b => .real (p.round (Double.ofInt (if b then 1 else 0)))
  | real p, .integer n => .real (p.round (Double.ofInt n))
  | real p, .real d => .real (p.round d)
  | mixed, s => s

end ElementKind

/-- The samples of a band, row by row: a plain list, or an array whose kind is known. -/
inductive Samples
  | list (members : List Sample)
  | array (kind : ElementKind) (members : List Sample)
deriving DecidableEq, Repr

namespace Samples

def kind : Samples → ElementKind
  | list members => .ofList members
  | array kind _ => kind

def members : Samples → List Sample
  | list members => members
  | array _ members => members

/-- The samples in the form of their kind. -/
def elements (s : Samples) : List Sample :=
  s.members.map s.kind.hold

/-- Whether the elements are doubles or narrower binary numbers. -/
def isReal (s : Samples) : Bool :=
  match s.kind with
  | .real _ => true
  | _ => false

end Samples

end RasterWkb
