import RasterWkb.Proofs.BuiltBands
import RasterWkb.Proofs.CanonicalBytes
import RasterWkb.Proofs.FoundBands
import RasterWkb.Proofs.SampleChecks
import RasterWkb.Proofs.WholeRecords

/-!
# Building a decoded raster again

A raster that was decoded without leaving out a band can be built from what was
read of it: the header, the type and nodata bytes of the bands, and the pixels.
The result is the input up to where decoding stopped, with the bytes that make no
difference to the reader in their canonical form.
-/
namespace RasterWkb

theorem Descriptor.toByte_ofByte (b : UInt8) : (ofByte b).toByte = .ok (b &&& 0xEF) :=
  forall_byte (p := fun b => (ofByte b).toByte = .ok (b &&& 0xEF)) (by decide +kernel) b

namespace WireBand
variable {area : Nat} {listed : Bool}

/-- The band of a decodable record, to be written again. -/
def source (listed : Bool) (r : WireBand area) : BandSource where
  descriptor := .ofByte r.kind
  nodata := (r.nodata.headD 0).toNat
  samples := .ofPlane listed r.samples

theorem encode_source {r : WireBand area} (hs : r.type.isSupported = true) :
    BandRecord.encode (r.source listed).descriptor (r.source listed).nodata
      (r.source listed).samples = .ok r.canonicalBytes := by
  have hwritable : BandRecord.isWritable (.ofByte r.kind) = true :=
    RasterSource.isWritable_iff.mpr ⟨r.online,r.type,r.typed,byteSize_of_supported hs⟩
  obtain ⟨nodata,hnodata⟩ : ∃ nodata, r.nodata = [nodata] :=
    List.length_eq_one_iff.mp (by rw [r.length_nodata, byteSize_of_supported hs])
  have hbyte : nodata.toNat < 256 := nodata.toNat_lt
  have hrange : ¬((nodata.toNat : Int) < BandRecord.sampleMin ∨
      BandRecord.sampleMax < (nodata.toNat : Int)) := by
    rw [BandRecord.sampleMin, BandRecord.sampleMax]
    omega
  unfold BandRecord.encode
  simp only [source, hwritable, Bool.not_true, Bool.false_eq_true, if_false, hnodata,
    List.headD_cons, if_neg hrange, BandRecord.payload_ofPlane, Descriptor.toByte_ofByte]
  rw [BandRecord.wrap_toNat, canonicalBytes, hnodata]
  rfl

theorem record_source {r : WireBand area} (hs : r.type.isSupported = true) (index : Nat) :
    RasterSource.record area index (r.source listed) = .ok r.canonicalBytes := by
  have hcount : ((r.canonicalBytes.length - 2 : Nat) : Int) = area := by
    rw [canonicalBytes, List.length_cons, List.length_append, r.length_nodata, r.length_samples,
      byteSize_of_supported hs]
    omega
  rw [RasterSource.record, encode_source hs]
  exact if_pos hcount

theorem records_sources {rs : List (WireBand area)} (hrs : ∀ r ∈ rs, r.type.isSupported = true)
    (index : Nat) :
    RasterSource.records area index (rs.map (source listed)) =
      .ok (rs.flatMap canonicalBytes) := by
  induction rs generalizing index with
  | nil => rfl
  | cons r rs ih =>
      rw [List.map_cons, RasterSource.records, record_source (hrs r List.mem_cons_self),
        ih (fun r' hr' => hrs r' (List.mem_cons_of_mem r hr')), List.flatMap_cons]
      rfl

end WireBand

/-- A source whose bands are decodable records is built from a header that fits. -/
theorem RasterSource.build_sources {src : RasterSource} {area : Nat} {listed : Bool}
    {rs : List (WireBand area)} (hfits : src.header.Fits) (harea : src.header.area = area)
    (hbands : src.bands = rs.map (WireBand.source listed))
    (hrs : ∀ r ∈ rs, r.type.isSupported = true) :
    src.build = .ok (src.header.bytes ++ rs.flatMap WireBand.canonicalBytes) := by
  rw [build, Header.encode?, if_pos hfits, hbands,
    show src.width * src.height = (area : Int) from harea]
  simp only [WireBand.records_sources hrs]
  rfl

namespace Raster
open BandStream
variable {s : Settings} {data : List UInt8} {raster : Raster}

/-- What was read of a raster, to be built again: its header, the bytes taken for the type
and the nodata value of each band, and the channels of the image. -/
def rebuilt (listed : Bool) (h : Header) (data : List UInt8) (t : Trace) (image : Image) :
    RasterSource where
  width := h.width
  height := h.height
  bands := ([Channel.red,.green,.blue].take h.numBands.toNat).map fun channel =>
    { descriptor := .ofByte (t.byteOf data (.bandType channel.position))
      nodata := (t.byteOf data (.nodata channel.position)).toNat
      samples := .ofPlane listed (image.plane channel) }
  scaleX := h.scaleX
  scaleY := h.scaleY
  originX := h.originX
  originY := h.originY
  srid := h.srid
  order := h.order

/-- The records that a raster without left out bands was read from. -/
structure ReadFrom (raster : Raster) (run : Run Raster) (data : List UInt8) {area : Nat}
    (rs : List (WireBand area)) : Prop where
  count : (Header.ofBytes data).numBands = rs.length
  supported : ∀ r ∈ rs, r.type.isSupported = true
  behind : ∃ tail, data.drop 61 = WireBand.stream rs ++ tail
  offset : run.cursor.offset = 61 + (WireBand.stream rs).length
  image : raster.image = .ofPlanes area (rs.map WireBand.samples)
  kind : ∀ (k : Nat) (hk : k < rs.length), run.trace.byteOf data (.bandType k) = rs[k].kind
  nodata : ∀ (k : Nat) (hk : k < rs.length),
    run.trace.byteOf data (.nodata k) = rs[k].nodata.headD 0

/-- The bytes of the bands are found behind what was told about the header. -/
theorem byteOf_behind {h : Header} {t : Trace} {role : Role} {band : Nat} {b : UInt8}
    (hrole : role.band? = some band)
    (htook : Trace.Took t ((Cursor.start data none).opened 61) role b) :
    Trace.byteOf (headerTrace 0 h ++ t) data role = b := by
  have hall := htook.prepend (c := .start data none) (n := 61) rfl rfl
    (offsetOf?_headerTrace 0 h hrole)
  exact hall.byteOf

theorem exists_readFrom {area : Nat} (harea : (Header.ofBytes data).HasArea area)
    (hsmall : area < 2 ^ (60 : Nat)) (hok : (decode s data).result = .ok raster)
    (hnone : raster.skipped = []) :
    ∃ rs : List (WireBand area), ReadFrom raster (decode s data) data rs := by
  obtain ⟨hsize,ha⟩ := accepted_of_decode hok
  have hn := numBands_of_decode hok
  have hrun := decode_accepted hsize ha
  generalize hbands : (readBands (Header.ofBytes data) s.skipUnsupportedPayload).run
    ((Cursor.start data none).opened 61) = bands at hrun
  obtain ⟨result,cursor,t⟩ := bands
  rw [hrun] at hok ⊢
  cases result with
  | error fault => cases hok
  | ok issues =>
      cases hok
      have hissues : issues = [] := hnone
      subst hissues
      obtain ⟨rs,hcount,hfound⟩ := readBands_found hn harea hsmall (by rw [hbands])
      obtain ⟨tail,hrest⟩ := hfound.rest
      obtain ⟨t',hpaint,hstream⟩ := run_readBands_stream rs harea hcount (by omega)
        (.inr hfound.supported) hrest
      rw [hbands] at hstream hfound
      rw [Run.mk.injEq] at hstream
      obtain ⟨-,rfl,rfl⟩ := hstream
      have hplanes : rs.map WireBand.plane = rs.map WireBand.samples :=
        List.map_congr_left fun r hr => if_pos (hfound.supported r hr)
      refine ⟨rs,hcount,hfound.supported,⟨tail,hrest⟩,rfl,?_,?_,?_⟩
      · rw [← hplanes, ← hpaint]
        simp only [assemble, harea.area_eq, Int.toNat_natCast]
      · intro k hk
        have htook := hfound.kind k hk
        rw [Nat.zero_add] at htook
        exact byteOf_behind rfl htook
      · intro k hk
        have htook := hfound.nodata k hk
        rw [Nat.zero_add] at htook
        exact byteOf_behind rfl htook

/-- The bands to be written are those of the records. -/
theorem bands_rebuilt {run : Run Raster} {area : Nat} {rs : List (WireBand area)}
    (h : ReadFrom raster run data rs) (hn : rs.length = 1 ∨ rs.length = 3) (listed : Bool) :
    (rebuilt listed (Header.ofBytes data) data run.trace raster.image).bands =
      rs.map (WireBand.source listed) := by
  have hchannels : ∀ channel : Channel, (hk : channel.position < rs.length) →
      raster.image.plane channel = rs[channel.position].samples →
      ({ descriptor := .ofByte (run.trace.byteOf data (.bandType channel.position))
         nodata := (run.trace.byteOf data (.nodata channel.position)).toNat
         samples := .ofPlane listed (raster.image.plane channel) } : BandSource) =
        rs[channel.position].source listed := by
    intro channel hk hplane
    rw [h.kind _ hk, h.nodata _ hk, hplane, WireBand.source]
  have himage := h.image
  have hcount : (Header.ofBytes data).numBands.toNat = rs.length := by
    rw [h.count, Int.toNat_natCast]
  rw [rebuilt, hcount]
  rcases hn with hn | hn
  · obtain ⟨r,rfl⟩ := List.length_eq_one_iff.mp hn
    have hred := hchannels .red (show 0 < 1 by decide) (by rw [himage]; rfl)
    exact congrArg (· :: []) hred
  · obtain ⟨r,g,b,rfl⟩ := List.length_eq_three.mp hn
    have hred := hchannels .red (show 0 < 3 by decide) (by rw [himage]; rfl)
    have hgreen := hchannels .green (show 1 < 3 by decide) (by rw [himage]; rfl)
    have hblue := hchannels .blue (show 2 < 3 by decide) (by rw [himage]; rfl)
    exact congrArg₂ (· :: ·) hred (congrArg₂ (· :: ·) hgreen (congrArg (· :: []) hblue))

theorem header_rebuilt {image : Image} {t : Trace} {listed : Bool}
    (hversion : (Header.ofBytes data).version = 0)
    (hcount : ((rebuilt listed (Header.ofBytes data) data t image).bands.length : Int) =
      (Header.ofBytes data).numBands) :
    (rebuilt listed (Header.ofBytes data) data t image).header =
      (Header.ofBytes data).unsigned := by
  rw [RasterSource.header, hcount, Header.unsigned, hversion]
  rfl

/-- What was consumed, made canonical. -/
theorem canonicalFrom_consumed {run : Run Raster} {area : Nat} {rs : List (WireBand area)}
    (ha : Header.Accepted data) (h : ReadFrom raster run data rs) :
    canonicalFrom (Header.orderAt data) area 0 (data.take run.cursor.offset) =
      (Header.ofBytes data).unsigned.bytes ++ rs.flatMap WireBand.canonicalBytes := by
  obtain ⟨tail,htail⟩ := h.behind
  have hfront : (data.take 61).length = 61 := List.length_take_of_le ha.long
  have hrecords := WireBand.canonicalFrom_stream (o := Header.orderAt data) h.supported 0
  rw [Nat.zero_mul] at hrecords
  rw [h.offset, List.take_add, htail, List.take_left, canonicalFrom_append, hfront, hrecords,
    Header.bytes_unsigned ha.long ha.unrotated area]
  rfl

/-- Whatever was decoded without leaving out a band can be built again, and apart from the
bytes that make no difference the result is the input that was consumed. -/
theorem build_rebuilt (hok : (decode s data).result = .ok raster) (hnone : raster.skipped = [])
    (listed : Bool) :
    let run := decode s data
    ∃ h, (Header.parse.run (Cursor.start data none)).result = .ok h ∧
      (rebuilt listed h data run.trace raster.image).build =
        .ok (canonicalFrom h.order (h.width * h.height).toNat 0
          (data.take run.cursor.offset)) := by
  intro run
  obtain ⟨hsize,ha⟩ := accepted_of_decode hok
  obtain ⟨area,harea,hsmall⟩ := Header.area_of_fits (Header.ofBytes_width_fits data)
    (Header.ofBytes_height_fits data)
  obtain ⟨rs,hread⟩ := exists_readFrom harea hsmall hok hnone
  have hn := numBands_of_decode hok
  have hcount := hread.count
  have hbands := bands_rebuilt hread (by omega) listed
  have hheader : (rebuilt listed (Header.ofBytes data) data run.trace raster.image).header = _ :=
    header_rebuilt ha.version (by rw [hbands, List.length_map, hcount])
  have hparse := Header.parse_accepted (c := Cursor.start data none) rfl ha
  have hbuild := RasterSource.build_sources
    (by rw [hheader]; exact Header.fits_ofBytes data ha.version)
    (by rw [hheader]; exact harea.area_eq) hbands hread.supported
  rw [hheader, ← canonicalFrom_consumed ha hread] at hbuild
  refine ⟨Header.ofBytes data,by rw [hparse]; rfl,?_⟩
  rw [Header.toNat_area harea]
  exact hbuild

/-- A gray raster of two pixels with another byte where the parts differ that the reader does
not tell apart, and bytes behind it: a mark of the order, a skew and a type byte. -/
def grayPixels (mark sign kind : UInt8) (tail : List UInt8) : List UInt8 :=
  [mark,0,0,1,0] ++ List.replicate 39 0 ++ [sign] ++ List.replicate 12 0 ++ [2,0,1,0] ++
    [kind,9,200,7] ++ tail

theorem build_grayPixels :
    ∃ raster, (decode .standard (grayPixels 7 0x80 0x54 [1,2])).result = .ok raster ∧
      (rebuilt false (Header.ofBytes (grayPixels 7 0x80 0x54 [1,2]))
        (grayPixels 7 0x80 0x54 [1,2]) (decode .standard (grayPixels 7 0x80 0x54 [1,2])).trace
        raster.image).build = .ok (grayPixels 1 0 0x44 []) := by
  obtain ⟨raster,hok,hnone⟩ : ∃ raster : Raster,
      (decode .standard (grayPixels 7 0x80 0x54 [1,2])).result = .ok raster ∧
        raster.skipped = [] := ⟨_,rfl,rfl⟩
  obtain ⟨h,hparse,hbuild⟩ := build_rebuilt hok hnone false
  have hh : Header.ofBytes (grayPixels 7 0x80 0x54 [1,2]) = h := by
    rw [Header.parse_accepted (c := .start _ none) rfl ⟨by decide,by decide,by decide⟩] at hparse
    cases hparse
    rfl
  subst hh
  refine ⟨raster,hok,hbuild.trans (congrArg Except.ok ?_)⟩
  decide

end Raster

end RasterWkb
