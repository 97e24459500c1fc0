import RasterWkb.Proofs.BuiltBands
import RasterWkb.Proofs.Outcomes
import RasterWkb.Proofs.WholeRecords

/-!
# Decoding what was built

What was built opens with an accepted header that spells the source, and behind
it there is a whole record for each band. If records are passed over, or need not
be, decoding finds every record and consumes all bytes. If it stays behind records
that it should have passed over, it loses its place but still ends in a raster:
a misread band never takes more bytes than its record has.
-/
namespace RasterWkb

theorem Header.extent_origin {h : Header} {e : Extent} (hok : h.extent = .ok e) :
    e.x = h.originX ∧ e.y = h.originY := by
  unfold extent at hok
  split at hok
  · cases hok
  · split at hok
    · cases hok
    · cases hok
      exact ⟨rfl,rfl⟩

/-- The bytes are those of the source: its header can be read back, and behind it there is
a record for each band. -/
structure RasterSource.Spelled (s : RasterSource) (bytes : List UInt8) {area : Nat}
    (rs : List (WireBand area)) : Prop where
  spells : Header.ofBytes bytes = s.header
  accepted : Header.Accepted bytes
  hasArea : s.header.HasArea area
  small : area < 2 ^ (60 : Nat)
  behind : bytes.drop 61 = WireBand.stream rs
  length : bytes.length = 61 + (WireBand.stream rs).length
  written : List.Forall₂ BandSource.Written s.bands rs

theorem RasterSource.spelled_of_build {s : RasterSource} {bytes : List UInt8}
    (h : s.build = .ok bytes) : ∃ (area : Nat) (rs : List (WireBand area)), s.Spelled bytes rs := by
  obtain ⟨hfits,area,harea,rs,hrs,rfl⟩ := build_written h
  obtain ⟨area₁,harea₁,hsmall⟩ := Header.area_of_fits hfits.2.2.2.1 hfits.2.2.2.2
  have hspells := Header.ofBytes_bytes hfits (WireBand.stream rs)
  have hlength : (s.header.bytes ++ WireBand.stream rs).length =
      61 + (WireBand.stream rs).length := by
    rw [List.length_append, Header.length_bytes]
    rfl
  have hsame : area₁ = area := by
    have heq := harea₁.area_eq
    rw [harea.area_eq] at heq
    omega
  refine ⟨area,rs,hspells,⟨?_,?_,?_⟩,harea,hsame ▸ hsmall,
    List.drop_left' (Header.length_bytes s.header),hlength,hrs⟩
  · rw [hlength]
    exact Nat.le_add_right _ _
  · rw [hspells]
    rfl
  · rw [hspells]
    exact ⟨rfl,rfl⟩

namespace Raster
open BandStream

variable {s : RasterSource} {settings : Settings} {bytes : List UInt8} {area : Nat}
variable {rs : List (WireBand area)}

theorem returns_of_spelled (hs : s.Spelled bytes rs) (hsize : bytes.length ≤ settings.maxInputBytes)
    (hn : s.bands.length = 1 ∨ s.bands.length = 3)
    (hmode : settings.skipUnsupportedPayload = true ∨ ∀ b ∈ s.bands, b.Decodable) :
    Returns s.header (.ofPlanes area (s.bands.map (BandSource.plane area)))
      (s.bands.zipIdx.flatMap fun b => b.1.issues b.2) bytes.length []
      (decode settings bytes) := by
  have hrecords := hs.written.length_eq
  have hcount : (Header.ofBytes bytes).numBands = rs.length := by
    rw [hs.spells, ← hrecords]
    rfl
  have harea : (Header.ofBytes bytes).HasArea area := by
    rw [hs.spells]
    exact hs.hasArea
  have hrest : ((Cursor.start bytes none).opened 61).rest = WireBand.stream rs ++ [] := by
    rw [List.append_nil]
    exact hs.behind
  obtain ⟨painting,hpaint,hrun⟩ := run_readBands_stream rs harea hcount (by omega)
    (hmode.imp_right (BandSource.supported_of_decodable hs.written)) hrest
  have hreturns := returns_of_readBands hsize hs.accepted harea hpaint hrun
  rwa [hs.spells, hs.behind, List.drop_length, ← hs.length, BandSource.planes_eq hs.written,
    BandSource.issuesFrom_eq hs.written] at hreturns

theorem decode_ok_of_spelled (hs : s.Spelled bytes rs)
    (hsize : bytes.length ≤ settings.maxInputBytes)
    (hn : s.bands.length = 1 ∨ s.bands.length = 3) :
    ∃ raster, (decode settings bytes).result = .ok raster := by
  cases hmode : settings.skipUnsupportedPayload with
  | true =>
      obtain ⟨extent,-,hok⟩ := (returns_of_spelled hs hsize hn (.inl hmode)).result
      exact ⟨_,hok⟩
  | false =>
      have hcount : (Header.ofBytes bytes).numBands = s.bands.length := by rw [hs.spells]; rfl
      have henough : (Header.ofBytes bytes).numBands.toNat * (2 + area) ≤
          ((Cursor.start bytes none).opened 61).remaining := by
        rw [hcount, Int.toNat_natCast, ← BandSource.length_stream hs.written, ← hs.behind]
        exact Nat.le_refl _
      obtain ⟨issues,hok⟩ := readBands_ok_of_le (by omega)
        (by rw [hs.spells]; exact hs.hasArea) hs.small henough
      rw [← hmode] at hok
      exact ⟨_,decode_ok_of_readBands hsize hs.accepted hok⟩

/-- Every raster that was built is decoded to its own bands. -/
theorem decode_build (hbuild : s.build = .ok bytes)
    (hsize : bytes.length ≤ settings.maxInputBytes) :
    let run := decode settings bytes
    let area := (s.width * s.height).toNat
    if s.bands.length ≠ 1 ∧ s.bands.length ≠ 3 then
      run.result = .error (.decode (.unsupportedBandCount s.bands.length)) ∧
        run.cursor.offset = 61
    else
      (∃ raster, run.result = .ok raster ∧ Proper s.header raster ∧
        raster.extent.x = s.originX ∧ raster.extent.y = s.originY) ∧
      (settings.skipUnsupportedPayload = true ∨ (∀ b ∈ s.bands, b.Decodable) →
        Returns s.header (.ofPlanes area (s.bands.map (BandSource.plane area)))
          (s.bands.zipIdx.flatMap fun b => b.1.issues b.2) bytes.length [] run) := by
  obtain ⟨area,rs,hs⟩ := RasterSource.spelled_of_build hbuild
  have hnat : (s.width * s.height).toNat = area := Header.toNat_area hs.hasArea
  have hcount : (Header.ofBytes bytes).numBands = s.bands.length := by rw [hs.spells]; rfl
  simp only [hnat]
  split
  · next hn =>
      have hend := decode_band_count hsize hs.accepted (by omega) (by omega)
      rwa [hcount] at hend
  · next hn =>
      have hn' : s.bands.length = 1 ∨ s.bands.length = 3 := by omega
      refine ⟨?_,returns_of_spelled hs hsize hn'⟩
      obtain ⟨raster,hok⟩ := decode_ok_of_spelled hs hsize hn'
      rcases decode_bands hsize hs.accepted (by omega) with ⟨_,-,herr⟩ | ⟨raster',hok',hproper⟩
      · rw [herr] at hok
        cases hok
      · rw [hs.spells] at hproper
        exact ⟨raster',hok',hproper,Header.extent_origin hproper.extent⟩

/-- A source of three bands, the second of which cannot be decoded. -/
def twoPixels : RasterSource where
  width := 2
  height := 1
  bands := [⟨{ code := 3 },-7,.list [.integer (-1),.integer 5]⟩,
    ⟨{ code := 1, hasNodata := true },0,.array .unsigned [.integer 3,.integer 0]⟩,
    ⟨{ code := 4 },255,.list [.flag true,.real ⟨0x4069000000000000⟩]⟩]
  scaleX := .one
  scaleY := ⟨0xBFF0000000000000⟩
  originX := ⟨0x8000000000000000⟩
  originY := ⟨0x7FF8000000000001⟩
  srid := -1
  order := .big

/-- Sizes and numbers in front, samples in two's complement behind. -/
def twoPixelsBytes : List UInt8 :=
  [0,0,0,0,3,0x3F,0xF0,0,0,0,0,0,0,0xBF,0xF0,0,0,0,0,0,0,0x80,0,0,0,0,0,0,0,0x7F,0xF8,0,0,0,0,0,1]
    ++ List.replicate 16 0 ++ [0xFF,0xFF,0xFF,0xFF,0,2,0,1]
    ++ [3,0xF9,0xFF,5] ++ [0x41,0,3,0] ++ [4,0xFF,1,200]

theorem decode_twoPixels :
    twoPixels.build = .ok twoPixelsBytes ∧
      Returns twoPixels.header (.ofPlanes 2 [[0xFF,5],[0xFF,0xFF],[1,200]])
        [.unsupportedPixelType 1 1] 73 [] (decode ⟨true,73,by decide⟩ twoPixelsBytes) := by
  have hbuild : twoPixels.build = .ok twoPixelsBytes := by decide
  have hsize : twoPixelsBytes.length ≤ (⟨true,73,by decide⟩ : Settings).maxInputBytes := by decide
  have hdecode := decode_build hbuild hsize
  rw [if_neg (by decide)] at hdecode
  exact ⟨hbuild,hdecode.2 (.inl rfl)⟩

end Raster

end RasterWkb
