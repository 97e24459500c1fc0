import RasterWkb.Proofs.BuiltBands
import RasterWkb.Proofs.SampleChecks

/-!
# Which bands are accepted, and what is written of them

A band is accepted when it is stored in the raster, its pixel type is one of the first
five, and its nodata value and each of its samples is worth an integer from -128 to 255.
Then nothing of it is lost: the type byte gives the descriptor back, and the bytes of
the nodata value and the samples are their integers modulo 256. Everything else is
refused.

The samples are those of a plain list, or the elements of an array with a type of its
own. An array whose elements are left as they are given is not meant here: nothing in it
is tested for being whole. Neither are floats of an extended format, which have no kind.
-/
namespace RasterWkb

theorem PixelType.byteSize_eq_one (t : PixelType) : t.byteSize = 1 ↔ (t.code : Int) ≤ 4 := by
  cases t <;> decide

/-- The bit without meaning is clear. -/
theorem Descriptor.bit_four_of_toByte {d : Descriptor} {byte : UInt8} (h : d.toByte = .ok byte) :
    bit byte 4 = false := by
  obtain ⟨code,offline,has,all⟩ := d
  unfold toByte at h
  split at h
  · next hcode =>
      cases h
      obtain ⟨n,rfl⟩ : ∃ n : Nat, code = n := ⟨code.toNat,by simp only at hcode; omega⟩
      have hsmall : n ≤ 15 := by simp only at hcode; omega
      cases offline <;> cases has <;> cases all <;>
        simp [bit, flags, UInt8.toNat_ofNat'] <;> omega
  · cases h

theorem Descriptor.ofValue_of_toByte {d : Descriptor} {byte : UInt8} (h : d.toByte = .ok byte) :
    ofValue byte.toNat = .ok d := by
  have hbyte : byte.toNat < 256 := byte.toNat_lt
  rw [ofValue, if_pos (by omega), Int.toNat_natCast, UInt8.ofNat_toNat, ofByte_of_toByte h]

namespace BandRecord
variable {d : Descriptor} {nodata : Int} {samples : Samples}

/-- The number that a byte is, in two's complement when it is negative. -/
theorem toNat_wrap (n : Int) : ((wrap n).toNat : Int) = n % 256 := by
  rw [wrap, UInt8.toNat_ofNat']
  omega

theorem isWritable_iff_code :
    isWritable d = true ↔ d.isOffline = false ∧ 0 ≤ d.code ∧ d.code ≤ 4 := by
  rw [RasterSource.isWritable_iff]
  refine and_congr_right fun _ => ?_
  constructor
  · rintro ⟨t,htype,hsize⟩
    have hcode : (t.code : Int) = d.code := PixelType.code_of_ofCode? htype
    have hsmall := t.byteSize_eq_one.mp hsize
    omega
  · rintro ⟨hlow,hhigh⟩
    rw [Descriptor.pixelType?]
    rcases (by omega : d.code = 0 ∨ d.code = 1 ∨ d.code = 2 ∨ d.code = 3 ∨ d.code = 4) with
      hcode | hcode | hcode | hcode | hcode
    all_goals
      rw [hcode]
      exact ⟨_,rfl,rfl⟩

/-- The bands that fit a record with samples of one byte. -/
structure Encodable (d : Descriptor) (nodata : Int) (samples : Samples) : Prop where
  online : d.isOffline = false
  code : 0 ≤ d.code ∧ d.code ≤ 4
  nodata : sampleMin ≤ nodata ∧ nodata ≤ sampleMax
  samples : ∀ s ∈ samples.given, s.FitsByte

/-- The record keeps the band: its descriptor, and the integers of its nodata value and its
samples modulo 256, in their order. -/
structure Keeps (record : List UInt8) (d : Descriptor) (nodata : Int) (samples : Samples) :
    Prop where
  length : record.length = 2 + samples.given.length
  kind : ∃ byte, record[0]? = some byte ∧ Descriptor.ofValue byte.toNat = .ok d ∧
    Descriptor.bit byte 4 = false
  nodata : ∃ byte, record[1]? = some byte ∧ (byte.toNat : Int) = nodata % 256
  sample : ∀ i s n, samples.given[i]? = some s → s.Is n →
    ∃ byte, record[2 + i]? = some byte ∧ (byte.toNat : Int) = n % 256

theorem keeps_of_encode {record : List UInt8} (h : encode d nodata samples = .ok record) :
    Keeps record d nodata samples := by
  obtain ⟨-,kind,hkind,rfl⟩ := RasterSource.encode_eq h
  constructor
  · rw [List.length_cons, List.length_cons, List.length_map]
    omega
  · exact ⟨kind,rfl,Descriptor.ofValue_of_toByte hkind,Descriptor.bit_four_of_toByte hkind⟩
  · exact ⟨wrap nodata,rfl,toNat_wrap nodata⟩
  · intro i s n hs hn
    refine ⟨sampleByte s,?_,?_⟩
    · rw [Nat.add_comm, List.getElem?_cons_succ, List.getElem?_cons_succ, List.getElem?_map, hs]
      rfl
    · rw [sampleByte, hn.truncated_eq, toNat_wrap]

/-! ### What is refused, and in which order -/

theorem encode_of_not_writable (hd : ¬isWritable d = true) :
    encode d nodata samples = .error (.bandType d.code) := by
  rw [Bool.not_eq_true] at hd
  rw [encode, hd, if_pos (by decide)]

theorem encode_of_nodata (hd : isWritable d = true)
    (hn : ¬(sampleMin ≤ nodata ∧ nodata ≤ sampleMax)) :
    encode d nodata samples = .error (.nodataRange nodata) := by
  have hrange : nodata < sampleMin ∨ sampleMax < nodata := by omega
  rw [encode, hd, if_neg (by decide), if_pos hrange]

/-- Behind the first two checks, the samples decide. -/
theorem encode_of_payload (samples : Samples) (hd : isWritable d = true)
    (hn : sampleMin ≤ nodata ∧ nodata ≤ sampleMax) :
    ∃ kind, encode d nodata samples =
      (payload samples).map fun bytes => kind :: wrap nodata :: bytes := by
  have hrange : ¬(nodata < sampleMin ∨ sampleMax < nodata) := by omega
  obtain ⟨-,hlow,hhigh⟩ := isWritable_iff_code.mp hd
  have hkind : d.toByte = .ok (UInt8.ofNat (d.code.toNat + d.flags)) := if_pos (by omega)
  refine ⟨UInt8.ofNat (d.code.toNat + d.flags),?_⟩
  simp only [encode, hd, Bool.not_true, Bool.false_eq_true, if_false, if_neg hrange, hkind]
  cases payload samples <;> rfl

/-- A band that cannot be encoded is refused by the first check that it fails. -/
theorem refusal_cases (h : ¬Encodable d nodata samples) :
    encode d nodata samples = .error (.bandType d.code) ∨
      encode d nodata samples = .error (.nodataRange nodata) ∨
      (isWritable d = true ∧ (sampleMin ≤ nodata ∧ nodata ≤ sampleMax) ∧
        ¬∀ s ∈ samples.given, s.FitsByte) := by
  by_cases hd : isWritable d = true
  · by_cases hn : sampleMin ≤ nodata ∧ nodata ≤ sampleMax
    · refine .inr (.inr ⟨hd,hn,fun hfit => h ?_⟩)
      obtain ⟨honline,hcode⟩ := isWritable_iff_code.mp hd
      exact ⟨honline,hcode,hn,hfit⟩
    · exact .inr (.inl (encode_of_nodata hd hn))
  · exact .inl (encode_of_not_writable hd)

theorem Encodable.encode_ok (h : Encodable d nodata samples) :
    ∃ record, encode d nodata samples = .ok record := by
  obtain ⟨honline,hcode,hn,hfit⟩ := h
  obtain ⟨kind,hencode⟩ :=
    encode_of_payload samples (isWritable_iff_code.mpr ⟨honline,hcode⟩) hn
  rw [payload_of_fitsByte hfit] at hencode
  exact ⟨_,hencode⟩

/-- Exactly the bands that can be encoded are accepted, and the record keeps the band. -/
theorem encode_keeps (d : Descriptor) (nodata : Int) (samples : Samples)
    (htyped : ∀ elements, samples ≠ .array .mixed elements) :
    (Encodable d nodata samples →
        ∃ record, encode d nodata samples = .ok record ∧ Keeps record d nodata samples) ∧
      (¬Encodable d nodata samples → ∃ fault, encode d nodata samples = .error fault) := by
  constructor
  · intro h
    obtain ⟨record,hrecord⟩ := h.encode_ok
    exact ⟨record,hrecord,keeps_of_encode hrecord⟩
  · intro h
    rcases refusal_cases h with hfault | hfault | ⟨hd,hn,hmisfit⟩
    · exact ⟨_,hfault⟩
    · exact ⟨_,hfault⟩
    · obtain ⟨fault,hpayload⟩ := payload_fault htyped hmisfit
      obtain ⟨kind,hencode⟩ := encode_of_payload samples hd hn
      rw [hpayload] at hencode
      exact ⟨fault,hencode⟩

/-- A flag, a zero with a sign, doubles and integers in one list. -/
theorem encode_keeps_negativeZero :
    let samples : Samples :=
      .list [.flag true, .integer (-128), .real ⟨0x8000000000000000⟩, .real ⟨0x406FE00000000000⟩]
    (∀ elements, samples ≠ .array .mixed elements) ∧
      encode ⟨3, false, true, false⟩ (-1) samples = .ok [0x43, 0xFF, 1, 0x80, 0, 0xFF] ∧
      Encodable ⟨3, false, true, false⟩ (-1) samples ∧
      Keeps [0x43, 0xFF, 1, 0x80, 0, 0xFF] ⟨3, false, true, false⟩ (-1) samples := by
  intro samples
  have htyped : ∀ elements, samples ≠ .array .mixed elements := fun _ => nofun
  have hencode : encode ⟨3, false, true, false⟩ (-1) samples =
      .ok [0x43, 0xFF, 1, 0x80, 0, 0xFF] := by decide +kernel
  obtain ⟨haccepts,hrefuses⟩ := encode_keeps ⟨3, false, true, false⟩ (-1) samples htyped
  have hencodable : Encodable ⟨3, false, true, false⟩ (-1) samples := by
    by_contra h
    obtain ⟨fault,hfault⟩ := hrefuses h
    rw [hencode] at hfault
    cases hfault
  obtain ⟨record,hrecord,hkeeps⟩ := haccepts hencodable
  rw [hencode] at hrecord
  cases hrecord
  exact ⟨htyped,hencode,hencodable,hkeeps⟩

end BandRecord

end RasterWkb
