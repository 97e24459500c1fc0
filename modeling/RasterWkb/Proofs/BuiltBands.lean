import RasterWkb.Build
import RasterWkb.Proofs.Decoding
import RasterWkb.Proofs.HeaderBytes
import RasterWkb.Proofs.SampleBytes
import RasterWkb.Proofs.WireBands
import Mathlib.Data.List.Forall2

/-!
# The bytes that a raster is built from

A raster that can be built is its header followed by a whole record for each
band. The record of a band holds its descriptor, its nodata value and the bytes
of its samples, each in one byte. Everything known about streams of whole records
applies to what was built.
-/
namespace RasterWkb

theorem PixelType.isSupported_iff (t : PixelType) :
    t.isSupported = true ↔ (t.code : Int) = 3 ∨ (t.code : Int) = 4 := by
  cases t <;> decide

namespace BandSource

/-- The samples of the band become pixels when it is decoded. -/
abbrev Decodable (b : BandSource) : Prop :=
  b.descriptor.code = 3 ∨ b.descriptor.code = 4

/-- The plane of the band in a raster of so many pixels. -/
def plane (area : Nat) (b : BandSource) : List UInt8 :=
  if b.Decodable then b.samples.given.map BandRecord.sampleByte else List.replicate area 0xFF

/-- Why the band is left out, if it is. -/
def issues (index : Nat) (b : BandSource) : List BandIssue :=
  if b.Decodable then [] else [.unsupportedPixelType index b.descriptor.code]

/-- The record holds the band. -/
structure Written {area : Nat} (b : BandSource) (r : WireBand area) : Prop where
  kind : Descriptor.ofByte r.kind = b.descriptor
  nodata : r.nodata = [BandRecord.wrap b.nodata]
  samples : r.samples = b.samples.given.map BandRecord.sampleByte

namespace Written
variable {area : Nat} {b : BandSource} {r : WireBand area}

theorem byteSize (h : Written b r) : r.type.byteSize = 1 := by
  rw [← r.length_nodata, h.nodata]
  rfl

theorem decodable_iff (h : Written b r) : b.Decodable ↔ r.type.isSupported = true := by
  rw [PixelType.isSupported_iff, ← r.code_eq, h.kind]

theorem plane_eq (h : Written b r) : r.plane = b.plane area := by
  unfold WireBand.plane BandSource.plane
  by_cases hd : b.Decodable
  · rw [if_pos hd, if_pos (h.decodable_iff.mp hd), h.samples]
  · rw [if_neg hd, if_neg fun hs => hd (h.decodable_iff.mpr hs)]

theorem issues_eq (h : Written b r) (index : Nat) : r.issues index = b.issues index := by
  unfold WireBand.issues BandSource.issues
  by_cases hd : b.Decodable
  · rw [if_pos hd, if_pos (h.decodable_iff.mp hd)]
  · rw [if_neg hd, if_neg fun hs => hd (h.decodable_iff.mpr hs), ← r.code_eq, h.kind]

end Written

variable {area : Nat} {bs : List BandSource} {rs : List (WireBand area)}

theorem planes_eq (h : List.Forall₂ Written bs rs) :
    rs.map WireBand.plane = bs.map (plane area) := by
  induction h with
  | nil => rfl
  | cons hb _ ih => rw [List.map_cons, List.map_cons, hb.plane_eq, ih]

theorem issuesFrom_eq (h : List.Forall₂ Written bs rs) (index : Nat) :
    WireBand.issuesFrom index rs = (bs.zipIdx index).flatMap fun b => b.1.issues b.2 := by
  induction h generalizing index with
  | nil => rfl
  | cons hb _ ih => rw [WireBand.issuesFrom, List.zipIdx_cons, List.flatMap_cons, hb.issues_eq, ih]

theorem supported_of_decodable (h : List.Forall₂ Written bs rs) (hall : ∀ b ∈ bs, b.Decodable) :
    ∀ r ∈ rs, r.type.isSupported = true := by
  induction h with
  | nil =>
      intro r hr
      exact absurd hr List.not_mem_nil
  | @cons b r bs rs hb _ ih =>
      intro other hother
      rcases List.mem_cons.mp hother with rfl | hother
      · exact hb.decodable_iff.mp (hall b List.mem_cons_self)
      · exact ih (fun b' hb' => hall b' (List.mem_cons_of_mem b hb')) other hother

theorem length_stream (h : List.Forall₂ Written bs rs) :
    (WireBand.stream rs).length = bs.length * (2 + area) := by
  induction h with
  | nil => simp
  | cons hb _ ih =>
      rw [WireBand.stream_cons, List.length_append, WireBand.length_bytes, hb.byteSize, ih,
        List.length_cons, Nat.succ_mul]
      omega

end BandSource

namespace RasterSource
open BandSource

theorem isWritable_iff {d : Descriptor} :
    BandRecord.isWritable d = true ↔
      d.isOffline = false ∧ ∃ t, d.pixelType? = some t ∧ t.byteSize = 1 := by
  rw [BandRecord.isWritable, Bool.and_eq_true, Bool.not_eq_true']
  cases d.pixelType? <;> simp

/-- What the writer has checked about a band, and the record that it gives. -/
theorem encode_eq {d : Descriptor} {nodata : Int} {samples : Samples} {bytes : List UInt8}
    (h : BandRecord.encode d nodata samples = .ok bytes) :
    BandRecord.isWritable d = true ∧ ∃ kind, d.toByte = .ok kind ∧
      bytes = kind :: BandRecord.wrap nodata :: samples.given.map BandRecord.sampleByte := by
  unfold BandRecord.encode at h
  split at h
  · cases h
  · next hwritable =>
      split at h
      · cases h
      · cases hpayload : BandRecord.payload samples with
        | error fault =>
            rw [hpayload] at h
            cases h
        | ok payload =>
            rw [hpayload] at h
            cases hkind : d.toByte with
            | error fault =>
                simp only [hkind] at h
                cases h
            | ok kind =>
                simp only [hkind] at h
                cases h
                rw [Bool.not_eq_true', Bool.not_eq_false] at hwritable
                exact ⟨hwritable,kind,rfl,by rw [BandRecord.payload_eq hpayload]⟩

theorem record_eq {area : Int} {index : Nat} {b : BandSource} {bytes : List UInt8}
    (h : record area index b = .ok bytes) :
    BandRecord.encode b.descriptor b.nodata b.samples = .ok bytes ∧
      ((bytes.length - 2 : Nat) : Int) = area := by
  unfold record at h
  cases hencode : BandRecord.encode b.descriptor b.nodata b.samples with
  | error fault =>
      rw [hencode] at h
      cases h
  | ok bytes' =>
      rw [hencode] at h
      change (if ((bytes'.length - 2 : Nat) : Int) = area then pure bytes' else _) = _ at h
      split at h
      · next hcount =>
          cases h
          exact ⟨rfl,hcount⟩
      · cases h

theorem record_written {area index : Nat} {b : BandSource} {bytes : List UInt8}
    (h : record area index b = .ok bytes) : ∃ r : WireBand area, r.bytes = bytes ∧ Written b r := by
  obtain ⟨hencode,hcount⟩ := record_eq h
  obtain ⟨hwritable,kind,hkind,rfl⟩ := encode_eq hencode
  obtain ⟨honline,t,htype,hsize⟩ := isWritable_iff.mp hwritable
  rw [← Descriptor.ofByte_of_toByte hkind] at honline htype
  have hlength : (b.samples.given.map BandRecord.sampleByte).length = area * t.byteSize := by
    simp only [List.length_cons] at hcount
    rw [hsize]
    omega
  exact ⟨⟨kind,t,honline,htype,by omega,[BandRecord.wrap b.nodata],_,by rw [hsize]; rfl,hlength⟩,
    rfl,Descriptor.ofByte_of_toByte hkind,rfl,rfl⟩

theorem records_written {area index : Nat} {bs : List BandSource} {bytes : List UInt8}
    (h : records area index bs = .ok bytes) :
    ∃ rs : List (WireBand area), WireBand.stream rs = bytes ∧ List.Forall₂ Written bs rs := by
  induction bs generalizing index bytes with
  | nil =>
      cases h
      exact ⟨[],rfl,.nil⟩
  | cons b bs ih =>
      unfold records at h
      cases hfirst : record area index b with
      | error fault =>
          rw [hfirst] at h
          cases h
      | ok first =>
          cases hothers : records area (index + 1) bs with
          | error fault =>
              rw [hfirst, hothers] at h
              cases h
          | ok others =>
              rw [hfirst, hothers] at h
              cases h
              obtain ⟨r,rfl,hr⟩ := record_written hfirst
              obtain ⟨rs,rfl,hrs⟩ := ih hothers
              exact ⟨r :: rs,WireBand.stream_cons r rs,.cons hr hrs⟩

/-- What is built is the bytes of a header that fits its fields, and a record for each band. -/
theorem build_written {s : RasterSource} {bytes : List UInt8} (h : s.build = .ok bytes) :
    s.header.Fits ∧ ∃ area : Nat, s.header.HasArea area ∧ ∃ rs : List (WireBand area),
      List.Forall₂ Written s.bands rs ∧ bytes = s.header.bytes ++ WireBand.stream rs := by
  unfold build at h
  by_cases hfits : s.header.Fits
  · rw [Header.encode?, if_pos hfits] at h
    obtain ⟨area,harea,-⟩ := Header.area_of_fits hfits.2.2.2.1 hfits.2.2.2.2
    refine ⟨hfits,area,harea,?_⟩
    simp only at h
    rw [show s.width * s.height = (area : Int) from harea.area_eq] at h
    cases hrecords : records area 0 s.bands with
    | error fault =>
        rw [hrecords] at h
        cases h
    | ok records =>
        rw [hrecords] at h
        cases h
        obtain ⟨rs,rfl,hrs⟩ := records_written hrecords
        exact ⟨rs,hrs,rfl⟩
  · rw [Header.encode?, if_neg hfits] at h
    cases h

end RasterSource

end RasterWkb
