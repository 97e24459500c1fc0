import RasterWkb.Proofs.AcceptedBands

/-!
# Where the parts of a built raster lie

Building a raster refuses numbers that do not fit into the header before it looks at a
band. Behind that, the first band that does not fit says why nothing is built: by its own
fault if it cannot be encoded, and by its number of samples otherwise. If all bands fit,
their records stand behind the header, one as long as the other, so that the place of each
follows from its index.

No number is taken for granted. A width and a height that are both negative have a product
that some number of samples is equal to, but they are refused with the header.
-/
namespace RasterWkb

namespace BandRecord
variable {d : Descriptor} {nodata : Int} {samples : Samples}

/-- No band is refused as the numbers of a header are. -/
theorem payload_ne_headerField (samples : Samples) : payload samples ≠ .error .headerField := by
  intro h
  unfold payload at h
  simp only at h
  split at h
  · cases h
  · rcases checkRange_cases samples.kind samples.elements with hok | ⟨least,greatest,herr⟩
    · rw [hok] at h
      rcases all_fitWord_or_misfit samples.elements with hall | ⟨words,s,others,heq,hwords,hs⟩
      · rw [mapM_integerOf_of_fitsWord hall] at h
        cases h
      · rw [heq, mapM_integerOf_misfit hwords hs] at h
        unfold misfit at h
        split at h <;> cases h
    · rw [herr] at h
      cases h

theorem encode_ne_headerField : encode d nodata samples ≠ .error .headerField := by
  intro h
  by_cases hd : isWritable d = true
  · by_cases hn : sampleMin ≤ nodata ∧ nodata ≤ sampleMax
    · obtain ⟨kind,hencode⟩ := encode_of_payload samples hd hn
      rw [hencode] at h
      cases hpayload : payload samples with
      | error fault =>
          rw [hpayload] at h
          cases h
          exact payload_ne_headerField samples hpayload
      | ok bytes =>
          rw [hpayload] at h
          cases h
    · rw [encode_of_nodata hd hn] at h
      cases h
  · rw [encode_of_not_writable hd] at h
    cases h

end BandRecord

namespace BandSource
variable {area : Int} {index : Nat} {b : BandSource} {bs : List BandSource}

/-- The record of the band, whatever the number of its samples. -/
abbrev encoded (b : BandSource) : Except EncodeFault (List UInt8) :=
  BandRecord.encode b.descriptor b.nodata b.samples

/-- The band can be encoded and has a sample for each pixel. -/
def Fits (area : Int) (b : BandSource) : Prop :=
  (∃ record, b.encoded = .ok record) ∧ (b.samples.members.length : Int) = area

/-- Why the band with an index does not fit. Its samples are counted only if it can be
encoded. -/
inductive Misfits (area : Int) (index : Nat) (b : BandSource) : EncodeFault → Prop
  | refused {fault : EncodeFault} (h : b.encoded = .error fault) : Misfits area index b fault
  | miscounted {record : List UInt8} {count : Nat} (h : b.encoded = .ok record)
      (hcount : count = b.samples.members.length) (hne : (count : Int) ≠ area)
      (hmessage : (EncodeFault.sampleCount index count area).message =
        "band " ++ toString index ++ " has " ++ toString count ++ " samples, expected " ++
          toString area) :
      Misfits area index b (.sampleCount index count area)

theorem Misfits.ne_headerField {fault : EncodeFault} (h : b.Misfits area index fault) :
    fault ≠ .headerField := by
  rintro rfl
  cases h with
  | refused h => exact BandRecord.encode_ne_headerField h

theorem length_encoded {record : List UInt8} (h : b.encoded = .ok record) :
    record.length = 2 + b.samples.members.length := by
  have hgiven : b.samples.given.length = b.samples.members.length := by
    cases b.samples with
    | list members => rfl
    | array kind members => exact List.length_map _
  rw [(BandRecord.keeps_of_encode h).length, hgiven]

end BandSource

namespace RasterSource
open BandSource
variable {area : Int} {index : Nat} {b : BandSource} {bs : List BandSource}

theorem record_bind (area : Int) (index : Nat) (b : BandSource) :
    record area index b = (do
      let bytes ← b.encoded
      let count := bytes.length - 2
      if (count : Int) = area then pure bytes else .error (.sampleCount index count area)) :=
  rfl

/-- The samples of a band that can be encoded are counted. -/
theorem record_of_encoded {bytes : List UInt8} (h : b.encoded = .ok bytes) :
    record area index b = if (b.samples.members.length : Int) = area then .ok bytes
      else .error (.sampleCount index b.samples.members.length area) := by
  have hlength := length_encoded h
  have hcount : bytes.length - 2 = b.samples.members.length := by omega
  rw [← hcount, record_bind, h]
  rfl

/-- A band is checked by itself first, and then against the number of pixels. -/
theorem record_cases (area : Int) (index : Nat) (b : BandSource) :
    (∃ bytes, record area index b = .ok bytes ∧ b.encoded = .ok bytes ∧ b.Fits area) ∨
      ∃ fault, record area index b = .error fault ∧ b.Misfits area index fault := by
  cases hencode : b.encoded with
  | error fault => exact .inr ⟨fault,by rw [record_bind, hencode]; rfl,.refused hencode⟩
  | ok bytes =>
      rw [record_of_encoded hencode]
      split
      · next harea => exact .inl ⟨bytes,rfl,rfl,⟨bytes,hencode⟩,harea⟩
      · next hne => exact .inr ⟨_,rfl,.miscounted hencode rfl hne rfl⟩

/-- What writing the records of bands comes to, the first of which has the index. -/
inductive Recorded (area : Int) (index : Nat) (bs : List BandSource) :
    Except EncodeFault (List UInt8) → Prop
  | misfit {before after : List BandSource} {b : BandSource} {fault : EncodeFault}
      (hsplit : bs = before ++ b :: after) (hbefore : ∀ other ∈ before, other.Fits area)
      (hmisfit : b.Misfits area (index + before.length) fault) :
      Recorded area index bs (.error fault)
  | whole {records : List (List UInt8)} (hfits : ∀ b ∈ bs, b.Fits area)
      (hrecords : List.Forall₂ (fun b record => b.encoded = .ok record) bs records) :
      Recorded area index bs (.ok records.flatten)

/-- The first band that does not fit ends the writing. -/
theorem recorded (area : Int) (index : Nat) (bs : List BandSource) :
    Recorded area index bs (records area index bs) := by
  induction bs generalizing index with
  | nil => exact .whole (fun b hb => absurd hb List.not_mem_nil) .nil
  | cons b bs ih =>
      rw [records]
      rcases record_cases area index b with ⟨bytes,hrecord,hencode,hfits⟩ | ⟨fault,hrecord,hmisfit⟩
      · rw [hrecord]
        have hrest := ih (index + 1)
        generalize records area (index + 1) bs = result at hrest
        cases hrest with
        | @misfit before after other fault hsplit hbefore hmisfit =>
            have hsplit' : b :: bs = (b :: before) ++ other :: after := by
              rw [hsplit]
              rfl
            refine .misfit hsplit' (List.forall_mem_cons.mpr ⟨hfits,hbefore⟩) ?_
            rw [List.length_cons, ← Nat.add_assoc, Nat.add_right_comm]
            exact hmisfit
        | whole hall hrecords =>
            exact .whole (List.forall_mem_cons.mpr ⟨hfits,hall⟩) (.cons hencode hrecords)
      · rw [hrecord]
        have hsplit : b :: bs = [] ++ b :: bs := rfl
        exact .misfit hsplit (fun other hother => absurd hother List.not_mem_nil) hmisfit

/-! ### Records of one size -/

section Sizes
variable {records : List (List UInt8)} {size : Nat}

theorem length_flatten_of_sizes (h : ∀ record ∈ records, record.length = size) :
    records.flatten.length = records.length * size := by
  induction records with
  | nil => exact (Nat.zero_mul size).symm
  | cons record records ih =>
      rw [List.forall_mem_cons] at h
      rw [List.flatten_cons, List.length_append, h.1, ih h.2, List.length_cons, Nat.succ_mul,
        Nat.add_comm]

/-- The place of a record follows from its index. -/
theorem take_drop_flatten (h : ∀ record ∈ records, record.length = size) {i : Nat}
    {record : List UInt8} (hi : records[i]? = some record) :
    (records.flatten.drop (i * size)).take size = record := by
  induction records generalizing i with
  | nil => cases hi
  | cons first records ih =>
      rw [List.forall_mem_cons] at h
      rw [List.flatten_cons]
      cases i with
      | zero =>
          cases hi
          rw [Nat.zero_mul, List.drop_zero, List.take_left' h.1]
      | succ i =>
          rw [Nat.succ_mul, Nat.add_comm, ← List.drop_drop, List.drop_left' h.1]
          exact ih h.2 hi

end Sizes

/-! ### The whole raster -/

/-- The numbers that go into the header fit into their fields. -/
def InRange (s : RasterSource) : Prop :=
  (∀ n ∈ [s.width, s.height, (s.bands.length : Int)], 0 ≤ n ∧ n ≤ 65535) ∧
    -2147483648 ≤ s.srid ∧ s.srid ≤ 2147483647

/-- What building a raster comes to. The cases exclude one another. -/
inductive Built (s : RasterSource) : Except EncodeFault (List UInt8) → Prop
  /-- A number does not fit into the header, whatever the bands are. -/
  | header (hrange : ¬s.InRange) : Built s (.error .headerField)
  /-- A band does not fit, and all those in front of it do. -/
  | misfit {before after : List BandSource} {b : BandSource} {fault : EncodeFault}
      (hrange : s.InRange) (hsplit : s.bands = before ++ b :: after)
      (hbefore : ∀ other ∈ before, other.Fits (s.width * s.height))
      (hmisfit : b.Misfits (s.width * s.height) before.length fault) : Built s (.error fault)
  /-- Everything fits. -/
  | whole {area : Nat} {header : List UInt8} {records : List (List UInt8)} (hrange : s.InRange)
      (harea : s.width * s.height = area) (hfits : ∀ b ∈ s.bands, b.Fits area)
      (hheader : Header.encode?
        { version := 0, numBands := s.bands.length, scaleX := s.scaleX, scaleY := s.scaleY,
          originX := s.originX, originY := s.originY, skewX := .zero, skewY := .zero,
          srid := s.srid, width := s.width, height := s.height, order := s.order } = some header)
      (hrecords : List.Forall₂ (fun b record => b.encoded = .ok record) s.bands records)
      (hlength : (header ++ records.flatten).length = 61 + s.bands.length * (2 + area))
      (hplace : ∀ i record, records[i]? = some record →
        ((header ++ records.flatten).drop (61 + i * (2 + area))).take (2 + area) = record) :
      Built s (.ok (header ++ records.flatten))

theorem fits_header_iff {s : RasterSource} : s.header.Fits ↔ s.InRange := by
  simp only [InRange, List.forall_mem_cons, List.not_mem_nil, false_implies, implies_true,
    and_true]
  constructor
  · rintro ⟨-,hbands,hsrid,hwidth,hheight⟩
    exact ⟨⟨hwidth,hheight,hbands⟩,hsrid⟩
  · rintro ⟨⟨hwidth,hheight,hbands⟩,hsrid⟩
    have hversion : Header.FitsUInt16 0 := by decide
    exact ⟨hversion,hbands,hsrid,hwidth,hheight⟩

/-- The records of bands that fit are of one size. -/
theorem length_of_records {area : Nat} {records : List (List UInt8)}
    (hrecords : List.Forall₂ (fun b record => b.encoded = .ok record) bs records)
    (hfits : ∀ b ∈ bs, b.Fits area) : ∀ record ∈ records, record.length = 2 + area := by
  induction hrecords with
  | nil => exact fun record hrecord => absurd hrecord List.not_mem_nil
  | cons hencode _ ih =>
      rw [List.forall_mem_cons] at hfits ⊢
      refine ⟨?_,ih hfits.2⟩
      have hcount := hfits.1.2
      rw [length_encoded hencode]
      omega

theorem built_whole {s : RasterSource} {area : Nat} {records : List (List UInt8)}
    (hrange : s.InRange) (harea : s.width * s.height = area)
    (hfits : ∀ b ∈ s.bands, b.Fits area)
    (hrecords : List.Forall₂ (fun b record => b.encoded = .ok record) s.bands records) :
    s.Built (.ok (s.header.bytes ++ records.flatten)) := by
  have hheader : s.header.bytes.length = 61 := s.header.length_bytes
  have hsizes := length_of_records hrecords hfits
  refine .whole hrange harea hfits (if_pos (fits_header_iff.mpr hrange)) hrecords ?_ ?_
  · rw [List.length_append, hheader, length_flatten_of_sizes hsizes, hrecords.length_eq]
  · intro i record hi
    rw [← List.drop_drop, List.drop_left' hheader]
    exact take_drop_flatten hsizes hi

theorem build_built (s : RasterSource) : s.Built s.build := by
  rw [build]
  by_cases hfits : s.header.Fits
  · have hrange := fits_header_iff.mp hfits
    obtain ⟨area,harea,-⟩ := Header.area_of_fits hfits.2.2.2.1 hfits.2.2.2.2
    have hproduct : s.width * s.height = area := harea.area_eq
    rw [Header.encode?, if_pos hfits]
    have hrecorded := recorded (s.width * s.height) 0 s.bands
    simp only
    generalize records (s.width * s.height) 0 s.bands = result at hrecorded
    cases hrecorded with
    | misfit hsplit hbefore hmisfit =>
        rw [Nat.zero_add] at hmisfit
        exact .misfit hrange hsplit hbefore hmisfit
    | whole hall hrecords =>
        rw [hproduct] at hall
        exact built_whole hrange hproduct hall hrecords
  · rw [Header.encode?, if_neg hfits]
    exact .header fun hrange => hfits (fits_header_iff.mpr hrange)

/-- Numbers that do not fit into the header are refused, and nothing else is refused as they
are; behind that the first band that does not fit is named, or all parts lie in their places. -/
theorem build_layout (s : RasterSource) :
    (s.build = .error .headerField ↔ ¬s.InRange) ∧ s.Built s.build := by
  have hbuilt := s.build_built
  refine ⟨?_,hbuilt⟩
  generalize s.build = result at hbuilt
  cases hbuilt with
  | header hrange => exact iff_of_true rfl hrange
  | misfit hrange hsplit hbefore hmisfit =>
      refine iff_of_false (fun heq => ?_) (not_not.mpr hrange)
      exact hmisfit.ne_headerField (Except.error.inj heq)
  | whole hrange => exact iff_of_false (fun heq => by cases heq) (not_not.mpr hrange)

/-- Two samples are as many as a width of -1 and a height of -2 make. -/
example : (⟨-1,-2,[⟨⟨4,false,false,false⟩,0,.list [.integer 1,.integer 2]⟩],.zero,.zero,.zero,.zero,
    0,.little⟩ : RasterSource).build = .error .headerField := by
  decide

end RasterSource

end RasterWkb
