import RasterWkb.Proofs.Decoding
import RasterWkb.Proofs.WireBands

/-!
# Decoding streams of whole records

If the records behind an accepted header are whole, one for each band, and
records are passed over or need not be, decoding puts every record where it
belongs: the raster has the planes of the decodable records and blank planes for
the others, and the cursor stands behind the last record. A record of unknown
size ends the stream early; the bands in front of it keep their planes.
-/
namespace RasterWkb

/-- The image of a raster whose bands have the planes: the plane of an only band
shows in all colors, three bands have a color each. -/
def Image.ofPlanes (area : Nat) : List (List UInt8) → Image
  | [gray] => ⟨gray, gray, gray, .replicate area 0xFF⟩
  | [red, green, blue] => ⟨red, green, blue, .replicate area 0xFF⟩
  | _ => .blank area

/-- The type byte does not tell how long the record is. -/
def Descriptor.Unsized (d : Descriptor) : Prop :=
  d.isOffline = true ∨ d.pixelType? = none ∨ d.pixelType? = some .terminator

/-- Why a record of unknown size is left out; being offline comes first. -/
def Descriptor.unsizedIssue (index : Nat) (d : Descriptor) : BandIssue :=
  if d.isOffline then .offline index else .unsupportedPixelType index d.code

theorem Descriptor.tail?_of_unsized {d : Descriptor} (h : d.Unsized) (area : Int) :
    d.tail? area = none := by
  cases hon : d.isOffline with
  | true => simp [Descriptor.tail?, hon]
  | false =>
      rcases h with h | h | h
      · rw [hon] at h
        cases h
      · simp [Descriptor.tail?, hon, h]
      · simp [Descriptor.tail?, hon, h, PixelType.byteSize]

theorem Descriptor.issue?_of_unsized {d : Descriptor} (h : d.Unsized) (index : Nat) :
    BandStream.issue? index d = some (d.unsizedIssue index) := by
  cases hon : d.isOffline with
  | true => simp [BandStream.issue?, Descriptor.unsizedIssue, hon]
  | false =>
      have hs : d.isSupported = false := by
        rcases h with h | h | h
        · rw [hon] at h
          cases h
        · simp [Descriptor.isSupported, h]
        · simp [Descriptor.isSupported, h, PixelType.isSupported]
      simp [BandStream.issue?, Descriptor.unsizedIssue, hon, hs]

namespace WireBand
variable {area : Nat}

/-- The planes of a colored raster whose last bands are missing. -/
theorem paintFrom_blank (rs : List (WireBand area)) (hlen : rs.length ≤ 3) :
    paintFrom 0 rs (.blank area) =
      .ofPlanes area (rs.map plane ++ List.replicate (3 - rs.length) (.replicate area 0xFF)) := by
  match rs, hlen with
  | [], _ => rfl
  | [r], _ =>
      simp only [paintFrom, paint, Channel.ofBand?, plane, List.map]
      cases r.type.isSupported <;> rfl
  | [r, g], _ =>
      simp only [paintFrom, paint, Channel.ofBand?, plane, List.map]
      cases r.type.isSupported <;> cases g.type.isSupported <;> rfl
  | [r, g, b], _ =>
      simp only [paintFrom, paint, Channel.ofBand?, plane, List.map]
      cases r.type.isSupported <;> cases g.type.isSupported <;> cases b.type.isSupported <;> rfl

end WireBand

namespace BandStream
variable {area : Nat} {h : Header} {passing : Bool} {c : Cursor} {tail : List UInt8}

theorem run_grayscale_wireBand (r : WireBand area) (harea : h.HasArea area)
    (hmode : passing = true ∨ r.type.isSupported = true) (hrest : c.rest = r.bytes ++ tail) :
    ∃ t, Trace.paintOn t (.blank area) = .ofPlanes area [r.plane] ∧
      (grayscale h passing).run c = ⟨.ok (r.issues 0), c.advance r.bytes.length, t⟩ := by
  by_cases hs : r.type.isSupported = true
  · obtain ⟨nodata,rest,hopens,htake,henough,hlen⟩ := WireBand.opens_supported hs tail
    rw [hopens] at hrest
    have hrun : (grayscale h passing).run c = _ :=
      run_grayscale_filled hrest harea (WireBand.issue?_of_supported hs 0) henough
    refine ⟨((grayscale h passing).run c).trace,?_,?_⟩
    · rw [hrun, htake, Trace.paintOn_append, Trace.paintOn_append, paintOn_opening,
        paintOn_ignored, paintOn_graying, WireBand.plane, if_pos hs]
      rfl
    · rw [hrun, hlen, WireBand.issues, if_pos hs]
  · obtain ⟨nodata,rest,n,hopens,htail,henough,hlen⟩ := r.opens tail
    rw [hopens] at hrest
    rw [← harea.area_eq] at htail
    obtain rfl : passing = true := hmode.resolve_right hs
    have hrun : (grayscale h true).run c = _ :=
      run_grayscale_passed hrest (WireBand.issue?_of_unsupported hs 0) htail henough
    refine ⟨((grayscale h true).run c).trace,?_,?_⟩
    · rw [hrun, WireBand.plane, if_neg hs]
      rfl
    · rw [hrun, hlen, WireBand.issues, if_neg hs]

/-- The bands of a raster whose records are all whole. -/
theorem run_readBands_stream (rs : List (WireBand area)) (harea : h.HasArea area)
    (hcount : h.numBands = rs.length) (hn : rs.length = 1 ∨ rs.length = 3)
    (hmode : passing = true ∨ ∀ r ∈ rs, r.type.isSupported = true)
    (hrest : c.rest = WireBand.stream rs ++ tail) :
    ∃ t, Trace.paintOn t (.blank area) = .ofPlanes area (rs.map WireBand.plane) ∧
      (Raster.readBands h passing).run c =
        ⟨.ok (WireBand.issuesFrom 0 rs), c.advance (WireBand.stream rs).length, t⟩ := by
  rcases hn with hn | hn
  · obtain ⟨r,rfl⟩ := List.length_eq_one_iff.mp hn
    have hone : h.numBands = 1 := by rw [hcount]; rfl
    simp only [WireBand.stream_cons, WireBand.stream_nil, List.append_nil] at hrest
    obtain ⟨t,hpaint,hrun⟩ := run_grayscale_wireBand r harea
      (hmode.imp_right fun hall => hall r List.mem_cons_self) hrest
    refine ⟨t,hpaint,?_⟩
    rw [Raster.readBands, if_pos hone, hrun]
    simp only [WireBand.stream_cons, WireBand.stream_nil, List.append_nil, WireBand.issuesFrom]
  · have hthree : h.numBands = 3 := by rw [hcount, hn]; rfl
    have hne : ¬h.numBands = 1 := by omega
    obtain ⟨first',t,hpaint,hrun⟩ := run_bandsFrom_stream rs harea hmode 0 c 0 (by omega) none hrest
    refine ⟨t,?_,?_⟩
    · rw [hpaint, WireBand.paintFrom_blank rs (by omega), hn]
      simp
    · have htotal : h.numBands.toNat = rs.length + 0 := by rw [hthree, hn]; rfl
      rw [Raster.readBands, if_neg hne, if_pos hthree, rgb, htotal, hrun]
      simp [resume, bandsFrom, Except.map]

/-- The bands of a raster one of whose records is of unknown size. -/
theorem run_readBands_unsized (rs : List (WireBand area)) (harea : h.HasArea area)
    (hn : h.numBands = 1 ∨ h.numBands = 3) (hfew : rs.length < h.numBands) {kind nodata : UInt8}
    (hkind : (Descriptor.ofByte kind).Unsized)
    (hrest : c.rest = WireBand.stream rs ++ kind :: nodata :: tail) :
    ∃ t, Trace.paintOn t (.blank area) = .ofPlanes area (rs.map WireBand.plane ++
        List.replicate (h.numBands.toNat - rs.length) (.replicate area 0xFF)) ∧
      (Raster.readBands h true).run c =
        ⟨.ok (WireBand.issuesFrom 0 rs ++ [(Descriptor.ofByte kind).unsizedIssue rs.length]),
          c.advance ((WireBand.stream rs).length + 2), t⟩ := by
  rcases hn with hn | hn
  · have hnil : rs = [] := List.eq_nil_of_length_eq_zero (by omega)
    subst hnil
    have hrun := run_grayscale_last (h := h) hrest (Descriptor.issue?_of_unsized hkind 0)
      (Descriptor.tail?_of_unsized hkind _)
    refine ⟨((grayscale h true).run c).trace,?_,?_⟩
    · rw [hrun, hn]
      rfl
    · rw [Raster.readBands, if_pos hn, hrun]
      rfl
  · have hne : ¬h.numBands = 1 := by omega
    obtain ⟨left,hleft⟩ : ∃ left, h.numBands.toNat = rs.length + (left + 1) :=
      ⟨2 - rs.length,by omega⟩
    obtain ⟨first',t,hpaint,hrun⟩ := run_bandsFrom_stream (h := h) rs harea
      (Or.inl (rfl : true = true)) (left + 1) c 0 (by omega) none hrest
    have hnext : (c.advance (WireBand.stream rs).length).rest = kind :: nodata :: tail := by
      rw [Cursor.rest_advance, hrest, List.drop_left]
    have hlast : (visit h true first' (0 + rs.length)).run
        (c.advance (WireBand.stream rs).length) = _ :=
      run_visit_last hnext (Descriptor.issue?_of_unsized hkind (0 + rs.length))
        (Descriptor.tail?_of_unsized hkind _)
    have hpast : ∀ i : Image, Trace.paintOn ((visit h true first' (0 + rs.length)).run
        (c.advance (WireBand.stream rs).length)).trace i = i := by
      intro i
      rw [hlast]
      rfl
    refine ⟨t ++ ((visit h true first' (0 + rs.length)).run
      (c.advance (WireBand.stream rs).length)).trace,?_,?_⟩
    · rw [Trace.paintOn_append, hpast, hpaint, WireBand.paintFrom_blank rs (by omega), hn]
      rfl
    · rw [Raster.readBands, if_neg hne, if_pos hn, rgb, hleft, hrun, run_bandsFrom_last hlast,
        hlast]
      simp only [resume, Except.map, Cursor.advance_advance, Nat.zero_add]

end BandStream

namespace Raster
open BandStream
variable {s : Settings} {data : List UInt8} {area : Nat}

/-- Decoding that passes over records finds its way through every stream of whole
records, of whatever types they are, and up to the first record of unknown size. -/
theorem decode_whole_records (hpassing : s.skipUnsupportedPayload = true)
    (hsize : data.length ≤ s.maxInputBytes) (ha : Header.Accepted data)
    (harea : (Header.ofBytes data).area = area)
    (hn : (Header.ofBytes data).numBands = 1 ∨ (Header.ofBytes data).numBands = 3)
    (bands : List (WireBand area)) (tail : List UInt8) :
    let h := Header.ofBytes data
    (h.numBands = bands.length → data.drop 61 = WireBand.stream bands ++ tail →
      Returns h (.ofPlanes area (bands.map WireBand.plane)) (WireBand.issuesFrom 0 bands)
        (61 + (WireBand.stream bands).length) tail (decode s data)) ∧
    ∀ kind nodata, bands.length < h.numBands → (Descriptor.ofByte kind).Unsized →
      data.drop 61 = WireBand.stream bands ++ kind :: nodata :: tail →
      Returns h
        (.ofPlanes area (bands.map WireBand.plane ++
          List.replicate (h.numBands.toNat - bands.length) (.replicate area 0xFF)))
        (WireBand.issuesFrom 0 bands ++ [(Descriptor.ofByte kind).unsizedIssue bands.length])
        (61 + ((WireBand.stream bands).length + 2)) tail (decode s data) := by
  intro h
  have hhas : (Header.ofBytes data).HasArea area :=
    ⟨(Header.ofBytes_width_fits data).1,(Header.ofBytes_height_fits data).1,harea⟩
  constructor
  · intro hcount hrest
    have hlen : bands.length = 1 ∨ bands.length = 3 := by
      rw [show (Header.ofBytes data).numBands = bands.length from hcount] at hn
      omega
    obtain ⟨painting,hpaint,hrun⟩ := run_readBands_stream bands hhas hcount hlen
      (Or.inl (rfl : true = true)) (show ((Cursor.start data none).opened 61).rest = _ from hrest)
    rw [← hpassing] at hrun
    have hreturns := returns_of_readBands hsize ha hhas hpaint hrun
    rwa [hrest, List.drop_left] at hreturns
  · intro kind nodata hfew hkind hrest
    obtain ⟨painting,hpaint,hrun⟩ := run_readBands_unsized bands hhas hn hfew hkind
      (show ((Cursor.start data none).opened 61).rest = _ from hrest)
    rw [← hpassing] at hrun
    have hreturns := returns_of_readBands hsize ha hhas hpaint hrun
    rwa [hrest, ← List.drop_drop, List.drop_left] at hreturns

/-- Three records of one sample each, the second of which can be decoded. -/
def mixedBands : List (WireBand 1) :=
  [⟨5,.int16,rfl,rfl,by decide,[0,0],[0x34,0x12],rfl,rfl⟩,
    ⟨0x44,.uint8,rfl,rfl,by decide,[9],[7],rfl,rfl⟩,
    ⟨11,.float64,rfl,rfl,by decide,.replicate 8 0,.replicate 8 0x3F,rfl,rfl⟩]

/-- The header of a colored raster of one pixel, and bytes behind it. -/
def onePixel (records : List UInt8) : List UInt8 :=
  [1,0,0,3,0] ++ List.replicate 52 0 ++ [1,0,1,0] ++ records

theorem decode_mixedBands :
    Returns (Header.ofBytes (onePixel (WireBand.stream mixedBands ++ [0xAA])))
        (.ofPlanes 1 [[0xFF],[7],[0xFF]])
        [.unsupportedPixelType 0 5,.unsupportedPixelType 2 11] 86 [0xAA]
        (decode ⟨true,4096,by decide⟩ (onePixel (WireBand.stream mixedBands ++ [0xAA]))) ∧
      Returns (Header.ofBytes (onePixel (WireBand.stream (mixedBands.take 2) ++ [0x85,0,1,2,3])))
        (.ofPlanes 1 [[0xFF],[7],[0xFF]]) [.unsupportedPixelType 0 5,.offline 2] 71 [1,2,3]
        (decode ⟨true,4096,by decide⟩
          (onePixel (WireBand.stream (mixedBands.take 2) ++ [0x85,0,1,2,3]))) := by
  constructor
  · have hpixel : Header.Accepted (onePixel (WireBand.stream mixedBands ++ [0xAA])) :=
      ⟨by decide,by decide,by decide⟩
    exact (decode_whole_records rfl (by decide) hpixel (by decide) (.inr (by decide)) mixedBands
      [0xAA]).1 (by decide) (by decide)
  · have hpixel : Header.Accepted
        (onePixel (WireBand.stream (mixedBands.take 2) ++ [0x85,0,1,2,3])) :=
      ⟨by decide,by decide,by decide⟩
    exact (decode_whole_records rfl (by decide) hpixel (by decide) (.inr (by decide))
      (mixedBands.take 2) [1,2,3]).2 0x85 0 (by decide) (.inl (by decide)) (by decide)

end Raster

end RasterWkb
