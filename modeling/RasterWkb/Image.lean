/-!
# Pixel images by channel

An image has four channels, each a plane of samples in row-major order. Bands
fill whole planes, so that is how an image is kept; the packed form, four bytes
for a pixel, is computed from the planes.
-/
namespace RasterWkb

inductive Channel
  | red
  | green
  | blue
  | alpha
deriving DecidableEq, Repr

/-- The place of a channel among the four bytes of a pixel. -/
def Channel.position : Channel → Nat
  | red => 0
  | green => 1
  | blue => 2
  | alpha => 3

/-- The channel that a band of a multi-band raster fills. -/
def Channel.ofBand? : Nat → Option Channel
  | 0 => some red
  | 1 => some green
  | 2 => some blue
  | 3 => some alpha
  | _ => none

/-- An image as four planes of equal length. -/
structure Image where
  red : List UInt8
  green : List UInt8
  blue : List UInt8
  alpha : List UInt8
deriving DecidableEq, Repr

namespace Image

def plane (i : Image) : Channel → List UInt8
  | .red => i.red
  | .green => i.green
  | .blue => i.blue
  | .alpha => i.alpha

/-- Replaces one plane. -/
def paint (i : Image) : Channel → List UInt8 → Image
  | .red, plane => { i with red := plane }
  | .green, plane => { i with green := plane }
  | .blue, plane => { i with blue := plane }
  | .alpha, plane => { i with alpha := plane }

@[simp] theorem plane_paint_self (i : Image) (c : Channel) (p : List UInt8) :
    (i.paint c p).plane c = p := by
  cases c <;> rfl

theorem plane_paint_of_ne (i : Image) {c other : Channel} (h : other ≠ c) (p : List UInt8) :
    (i.paint c p).plane other = i.plane other := by
  cases c <;> cases other <;> first | rfl | exact absurd rfl h

/-- An image whose pixels are all the same. -/
def filled (count : Nat) (red green blue alpha : UInt8) : Image :=
  ⟨.replicate count red, .replicate count green, .replicate count blue, .replicate count alpha⟩

/-- Opaque white. -/
def blank (count : Nat) : Image :=
  filled count 0xFF 0xFF 0xFF 0xFF

/-- The four bytes of a pixel. -/
def quad (p : (UInt8 × UInt8) × (UInt8 × UInt8)) : List UInt8 :=
  [p.1.1, p.1.2, p.2.1, p.2.2]

/-- The four bytes of each pixel in turn. -/
def packed (i : Image) : List UInt8 :=
  ((i.red.zip i.green).zip (i.blue.zip i.alpha)).flatMap quad

/-- All planes have the same number of samples. -/
def HasSize (i : Image) (count : Nat) : Prop :=
  ∀ c, (i.plane c).length = count

theorem hasSize_filled (count : Nat) (red green blue alpha : UInt8) :
    (filled count red green blue alpha).HasSize count := by
  intro c
  cases c <;> simp [filled, plane]

theorem HasSize.paint {i : Image} {count : Nat} (h : i.HasSize count) (c : Channel)
    {p : List UInt8} (hp : p.length = count) : (i.paint c p).HasSize count := by
  intro other
  by_cases same : other = c
  · rw [same, plane_paint_self, hp]
  · rw [plane_paint_of_ne i same, h]

theorem flatMap_quad_getElem? (ps : List ((UInt8 × UInt8) × (UInt8 × UInt8))) (n k : Nat)
    (hk : k < 4) : (ps.flatMap quad)[4 * n + k]? = ps[n]?.bind fun p => (quad p)[k]? := by
  induction ps generalizing n with
  | nil => rfl
  | cons p ps ih =>
    have first : (quad p).length = 4 := rfl
    rw [List.flatMap_cons]
    cases n with
    | zero =>
      rw [List.getElem?_append_left (by omega)]
      simp
    | succ n =>
      rw [List.getElem?_append_right (by omega), first]
      have shift : 4 * (n + 1) + k - 4 = 4 * n + k := by omega
      rw [shift, ih, List.getElem?_cons_succ]

/-- In the packed form the bytes of a channel are four apart. -/
theorem getElem?_packed {i : Image} {count : Nat} (h : i.HasSize count) (c : Channel)
    {n : Nat} (hn : n < count) :
    i.packed[4 * n + c.position]? = (i.plane c)[n]? := by
  have hr : n < i.red.length := by rw [show i.red.length = count from h .red]; exact hn
  have hg : n < i.green.length := by rw [show i.green.length = count from h .green]; exact hn
  have hb : n < i.blue.length := by rw [show i.blue.length = count from h .blue]; exact hn
  have ha : n < i.alpha.length := by rw [show i.alpha.length = count from h .alpha]; exact hn
  have small : c.position < 4 := by cases c <;> decide
  have size : n < ((i.red.zip i.green).zip (i.blue.zip i.alpha)).length := by
    simp only [List.length_zip]
    omega
  rw [packed, flatMap_quad_getElem? _ _ _ small, List.getElem?_eq_getElem size]
  cases c <;> simp [plane, quad, Channel.position, List.getElem_zip, hr, hg, hb, ha]

end Image

end RasterWkb
