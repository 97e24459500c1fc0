import RasterWkb.Proofs.HeaderBytes
import RasterWkb.Proofs.WireBands

/-!
# Bytes that the reader does not tell apart

Three things in an accepted stream have no influence on the raster: which number
other than zero marks the little-endian order, the sign of a zero skew, and bit 4
of a type byte. Each has a canonical form. Which form that is depends only on the
position of the byte, so making a stream canonical is a map over its positions,
and it agrees with writing its parts again.
-/
namespace RasterWkb

/-- The place of the sign among the eight bytes of a double. -/
def ByteOrder.signPlace : ByteOrder → Nat
  | little => 7
  | big => 0

/-- The byte at a position of a stream, made canonical: the first byte is a mark, the
skews at 37 and 45 are zeros, and each record from 61 on has two bytes in front of one
byte for each pixel. -/
def canonicalByte (o : ByteOrder) (area position : Nat) (byte : UInt8) : UInt8 :=
  if position = 0 then Header.canonicalMark byte
  else if position = 37 + o.signPlace ∨ position = 45 + o.signPlace then byte &&& 0x7F
  else if 61 ≤ position ∧ (position - 61) % (2 + area) = 0 then byte &&& 0xEF
  else byte

/-- A stretch of a stream made canonical, the first byte of which has the position. -/
def canonicalFrom (o : ByteOrder) (area start : Nat) (bytes : List UInt8) : List UInt8 :=
  bytes.mapIdx fun i => canonicalByte o area (start + i)

variable {o : ByteOrder} {area start : Nat}

theorem canonicalFrom_append (a b : List UInt8) :
    canonicalFrom o area start (a ++ b) =
      canonicalFrom o area start a ++ canonicalFrom o area (start + a.length) b := by
  simp only [canonicalFrom, List.mapIdx_append]
  congr 2
  funext i
  rw [Nat.add_assoc, Nat.add_comm a.length]

theorem canonicalFrom_cons (b : UInt8) (bs : List UInt8) :
    canonicalFrom o area start (b :: bs) =
      canonicalByte o area start b :: canonicalFrom o area (start + 1) bs := by
  simp only [canonicalFrom, List.mapIdx_cons, Nat.add_zero]
  congr 2
  funext i
  rw [Nat.add_assoc, Nat.add_comm 1]

/-- A stretch without any of the three stays as it is. -/
theorem canonicalFrom_eq_self {bytes : List UInt8}
    (h : ∀ i < bytes.length, ∀ b, canonicalByte o area (start + i) b = b) :
    canonicalFrom o area start bytes = bytes := by
  apply List.ext_getElem
  · simp [canonicalFrom]
  · intro i _ hi
    simp only [canonicalFrom, List.getElem_mapIdx, h i hi]

/-! ### The header -/

theorem canonicalByte_field {position : Nat} (h0 : position ≠ 0) (h61 : position < 61)
    (hskew : position < 37 ∨ 53 ≤ position) (b : UInt8) :
    canonicalByte o area position b = b := by
  have hsign : o.signPlace < 8 := by cases o <;> decide
  unfold canonicalByte
  rw [if_neg h0, if_neg (by omega), if_neg (by omega)]

/-- A zero loses its sign. -/
theorem canonicalFrom_zero {d : Double} (hd : d.isZero = true) (hstart : start = 37 ∨ start = 45) :
    canonicalFrom o area start (o.encode 8 d.pattern) = o.encode 8 0 := by
  have hpattern : d.pattern = 0 ∨ d.pattern = 2 ^ (63 : Nat) := by
    have hlt := d.pattern_lt
    rw [Double.isZero, Double.magnitude, decide_eq_true_eq] at hd
    omega
  have hbytes : o.encode 8 d.pattern = List.replicate 8 0 ∨
      o.encode 8 d.pattern = (List.replicate 8 0).set o.signPlace 0x80 := by
    rcases hpattern with h | h
    · left
      rw [h]
      cases o <;> rfl
    · right
      rw [h]
      cases o <;> rfl
  have hzero : o.encode 8 0 = List.replicate 8 0 := by cases o <;> rfl
  have hclear : (0x80 : UInt8) &&& 0x7F = 0 := rfl
  rw [hzero]
  rcases hbytes with h | h <;> rw [h] <;> rcases hstart with rfl | rfl <;> cases o <;>
    simp [canonicalFrom, canonicalByte, ByteOrder.signPlace, List.replicate, hclear]

namespace Header

/-- The header without the signs of its skews. -/
def unsigned (h : Header) : Header :=
  { h with skewX := .zero, skewY := .zero }

theorem canonicalFrom_mark {data : List UInt8} (hdata : data ≠ []) (o : ByteOrder) (area : Nat) :
    canonicalFrom o area 0 (data.take 1) = [markOf (orderAt data)] := by
  cases data with
  | nil => exact absurd rfl hdata
  | cons b bs => exact congrArg (· :: []) (markOf_orderOf b).symm

/-- The stretches of a header that differ in how they are made canonical. -/
theorem canonicalFrom_header {data : List UInt8} (hlong : byteSize ≤ data.length)
    (o : ByteOrder) (area : Nat) :
    canonicalFrom o area 0 (data.take byteSize) =
      canonicalFrom o area 0 (data.take 1) ++ ((data.drop 1).take 36 ++
        (canonicalFrom o area 37 ((data.drop 37).take 8) ++
          (canonicalFrom o area 45 ((data.drop 45).take 8) ++ (data.drop 53).take 8))) := by
  simp only [byteSize] at hlong
  have hpiece : ∀ offset width, offset + width ≤ 61 →
      ((data.drop offset).take width).length = width := by
    intro offset width hle
    rw [List.length_take, List.length_drop]
    omega
  have hkeep : ∀ offset width, 0 < offset → offset + width ≤ 37 ∨ 53 ≤ offset →
      offset + width ≤ 61 →
      canonicalFrom o area offset ((data.drop offset).take width) =
        (data.drop offset).take width := by
    intro offset width hpos hskew hle
    apply canonicalFrom_eq_self
    intro i hi b
    rw [hpiece offset width hle] at hi
    exact canonicalByte_field (by omega) (by omega) (by omega) b
  have hcut : data.take byteSize = data.take 1 ++ ((data.drop 1).take 36 ++
      ((data.drop 37).take 8 ++ ((data.drop 45).take 8 ++ (data.drop 53).take 8))) := by
    have h := flatten_pieces data 0 [1,36,8,8,8]
    simp only [pieces, List.flatten_cons, List.flatten_nil, List.append_nil] at h
    exact h.symm
  have hfirst : (data.take 1).length = 1 := hpiece 0 1 (by omega)
  rw [hcut, canonicalFrom_append, canonicalFrom_append, canonicalFrom_append,
    canonicalFrom_append, hfirst, hpiece 1 36 (by omega), hpiece 37 8 (by omega),
    hpiece 45 8 (by omega), hkeep 1 36 (by omega) (by omega) (by omega),
    hkeep 53 8 (by omega) (by omega) (by omega)]

/-- Writing the header that was read from a stream gives its first bytes, made canonical. -/
theorem bytes_unsigned {data : List UInt8} (hlong : byteSize ≤ data.length)
    (hunrotated : (ofBytes data).Unrotated) (area : Nat) :
    (ofBytes data).unsigned.bytes = canonicalFrom (orderAt data) area 0 (data.take byteSize) := by
  have hsegments := segments_ofBytes hlong
  simp only [segments, pieces, widths, List.tail_cons, List.cons.injEq, and_true, Nat.reduceAdd]
    at hsegments
  obtain ⟨-,hversion,hbands,hsx,hsy,hox,hoy,hkx,hky,hsrid,hwidth,hheight⟩ := hsegments
  have hnonempty : data ≠ [] := by
    rintro rfl
    exact absurd hlong (by decide)
  have hfront := flatten_pieces data 1 [2,2,8,8,8,8]
  have hback := flatten_pieces data 53 [4,2,2]
  simp only [pieces, List.flatten_cons, List.flatten_nil, List.append_nil, Nat.reduceAdd,
    List.sum_cons, List.sum_nil] at hfront hback
  have hskewX : canonicalFrom (orderAt data) area 37 ((data.drop 37).take 8) = _ :=
    (congrArg _ hkx.symm).trans (canonicalFrom_zero hunrotated.1 (.inl rfl))
  have hskewY : canonicalFrom (orderAt data) area 45 ((data.drop 45).take 8) = _ :=
    (congrArg _ hky.symm).trans (canonicalFrom_zero hunrotated.2 (.inr rfl))
  rw [canonicalFrom_header hlong, canonicalFrom_mark hnonempty, hskewX, hskewY, ← hfront, ← hback,
    ← flatten_segments]
  simp only [segments, unsigned, hversion, hbands, hsx, hsy, hox, hoy, hsrid, hwidth, hheight,
    List.flatten_cons, List.flatten_nil, List.append_nil, List.append_assoc]
  rfl

end Header

/-! ### The records -/

theorem canonicalByte_kind {k : Nat} (b : UInt8) :
    canonicalByte o area (61 + k * (2 + area)) b = b &&& 0xEF := by
  have hsign : o.signPlace < 8 := by cases o <;> decide
  have hplace : 61 + k * (2 + area) - 61 = k * (2 + area) := by omega
  unfold canonicalByte
  rw [if_neg (by omega), if_neg (by omega), hplace, if_pos ⟨by omega,Nat.mul_mod_left k _⟩]

theorem canonicalByte_behind {k i : Nat} (hi : i < 1 + area) (b : UInt8) :
    canonicalByte o area (61 + k * (2 + area) + 1 + i) b = b := by
  have hsign : o.signPlace < 8 := by cases o <;> decide
  have hplace : 61 + k * (2 + area) + 1 + i - 61 = 1 + i + k * (2 + area) := by omega
  have hmod : (1 + i + k * (2 + area)) % (2 + area) = 1 + i := by
    rw [Nat.add_mul_mod_self_right]
    exact Nat.mod_eq_of_lt (by omega)
  unfold canonicalByte
  rw [if_neg (by omega), if_neg (by omega), hplace, hmod, if_neg (by omega)]

namespace WireBand

/-- The bytes of a decodable record, bit 4 of the type byte clear. -/
def canonicalBytes (r : WireBand area) : List UInt8 :=
  (r.kind &&& 0xEF) :: (r.nodata ++ r.samples)

theorem canonicalFrom_bytes {r : WireBand area} (hr : r.type.isSupported = true) (k : Nat) :
    canonicalFrom o area (61 + k * (2 + area)) r.bytes = r.canonicalBytes := by
  rw [bytes, canonicalFrom_cons, canonicalByte_kind, canonicalBytes]
  congr 1
  apply canonicalFrom_eq_self
  intro i hi b
  rw [List.length_append, r.length_nodata, r.length_samples, byteSize_of_supported hr] at hi
  exact canonicalByte_behind (by omega) b

theorem canonicalFrom_stream {rs : List (WireBand area)}
    (hrs : ∀ r ∈ rs, r.type.isSupported = true) (k : Nat) :
    canonicalFrom o area (61 + k * (2 + area)) (stream rs) = rs.flatMap canonicalBytes := by
  induction rs generalizing k with
  | nil => rfl
  | cons r rs ih =>
      have hr := hrs r List.mem_cons_self
      have hnext : 61 + k * (2 + area) + r.bytes.length = 61 + (k + 1) * (2 + area) := by
        rw [r.length_bytes, byteSize_of_supported hr, Nat.succ_mul]
        omega
      rw [stream_cons, canonicalFrom_append, canonicalFrom_bytes hr, hnext,
        ih (fun r' hr' => hrs r' (List.mem_cons_of_mem r hr')), List.flatMap_cons]

end WireBand

end RasterWkb
