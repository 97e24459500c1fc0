import RasterWkb.Proofs.Decoding
import Mathlib.Tactic.SplitIfs

/-!
# How decoding ends

Decoding of arbitrary bytes ends in one of six ways, and the bytes at fixed
places decide which of the first four it is: the size limit is looked at first,
then the version, the rotation and the number of bands, each as soon as its
bytes are there. In all other cases the buffer is too short or there is a
raster, whose fields are those of the header.
-/
namespace RasterWkb

/-- The band that a channel shows in a raster of so many bands, if any. -/
def Channel.bandOf? (numBands : Int) : Channel → Option Nat
  | .alpha => none
  | channel => if numBands = 1 then some 0 else some channel.position

theorem Channel.bandOf?_three {channel : Channel} {band : Nat}
    (h : channel.bandOf? 3 = some band) : channel ≠ .alpha ∧ channel.position = band := by
  cases channel <;> cases h <;> exact ⟨by decide,rfl⟩

theorem Channel.le_position_of_bandOf? {channel : Channel} {numBands : Int} {band : Nat}
    (h : channel.bandOf? numBands = some band) : band ≤ channel.position := by
  cases channel with
  | alpha => cases h
  | _ =>
      simp only [bandOf?] at h
      split at h <;> cases h
      · exact Nat.zero_le _
      · exact Nat.le_refl _

theorem Image.length_packed {i : Image} {count : Nat} (h : i.HasSize count) :
    i.packed.length = 4 * count := by
  have hr : i.red.length = count := h .red
  have hg : i.green.length = count := h .green
  have hb : i.blue.length = count := h .blue
  have ha : i.alpha.length = count := h .alpha
  have hquad : ∀ p ∈ (i.red.zip i.green).zip (i.blue.zip i.alpha), (Image.quad p).length = 4 :=
    fun _ _ => rfl
  rw [Image.packed, List.length_flatMap, List.map_congr_left hquad, List.map_const',
    List.sum_replicate_nat]
  simp only [List.length_zip]
  omega

namespace BandStream

/-- What reading the bands of a raster with one or three of them comes to. -/
structure BandsRead (h : Header) (area : Nat) (r : Run (List BandIssue)) : Prop where
  ends : r.Underran ∨ ∃ issues, r.result = .ok issues ∧ Rising 0 h.numBands.toNat issues
  size : ∀ i : Image, i.HasSize area → (r.trace.paintOn i).HasSize area
  alpha : ∀ i : Image, (r.trace.paintOn i).alpha = i.alpha
  leftOut : ∀ issues, r.result = .ok issues → ∀ issue ∈ issues, ∀ channel : Channel,
    channel.bandOf? h.numBands = some issue.band → ∀ i : Image,
      (r.trace.paintOn i).plane channel = i.plane channel

variable {h : Header} {area : Nat} {passing : Bool} {c : Cursor}

theorem BandsRead.of_walked {r : Run (List BandIssue)} (hn : h.numBands = 3)
    (hw : Walked area 0 3 r) : BandsRead h area r where
  ends := by
    rw [hn]
    exact hw.ends
  size := hw.size
  alpha := fun i => hw.frame i .alpha (.inr (by decide))
  leftOut := by
    intro issues hok issue hissue channel hchannel i
    rw [hn] at hchannel
    exact hw.leftOut issues hok issue hissue channel (Channel.bandOf?_three hchannel).2 i

/-- A gray raster without its band's samples keeps its image. -/
theorem BandsRead.of_unpainted {r : Run (List BandIssue)}
    (hends : r.Underran ∨ ∃ issues, r.result = .ok issues ∧ Rising 0 h.numBands.toNat issues)
    (hpaint : ∀ i : Image, r.trace.paintOn i = i) : BandsRead h area r where
  ends := hends
  size := fun i hi => by rwa [hpaint]
  alpha := fun i => by rw [hpaint]
  leftOut := fun _ _ _ _ _ _ i => by rw [hpaint]

/-- A gray raster with its samples has them in every color. -/
theorem BandsRead.of_grayed {r : Run (List BandIssue)} {samples : List UInt8}
    (hok : r.result = .ok []) (hlen : samples.length = area)
    (hpaint : ∀ i : Image, r.trace.paintOn i = ⟨samples, samples, samples, i.alpha⟩) :
    BandsRead h area r where
  ends := .inr ⟨[],hok,.nil _ _⟩
  size := by
    intro i hi channel
    rw [hpaint]
    cases channel with
    | alpha => exact hi .alpha
    | _ => exact hlen
  alpha := fun i => by rw [hpaint]
  leftOut := by
    intro issues hissues issue hissue
    rw [hok] at hissues
    cases hissues
    exact absurd hissue List.not_mem_nil

theorem grayscale_read (hn : h.numBands = 1) (harea : h.HasArea area)
    (hsmall : area < 2 ^ (60 : Nat)) :
    BandsRead h area ((grayscale h passing).run c) := by
  have hone : h.numBands.toNat = 1 := by rw [hn]; rfl
  have single : ∀ {kind : UInt8} {issue : BandIssue}, issue? 0 (.ofByte kind) = some issue →
      Rising 0 h.numBands.toNat [issue] := by
    intro kind issue hissue
    rw [hone]
    exact .cons (issue?_band hissue) (.nil 1 0)
  have ho : GrayOutcome passing area c ((grayscale h passing).run c) :=
    grayscale_outcome harea hsmall
  generalize (grayscale h passing).run c = r at ho
  cases ho with
  | filled hrest hissue hlen =>
      refine .of_grayed rfl (List.length_take_of_le hlen) fun i => ?_
      rw [Trace.paintOn_append, Trace.paintOn_append, paintOn_opening, paintOn_ignored,
        paintOn_graying]
  | staying hrest hissue hmode =>
      exact .of_unpainted (.inr ⟨_,rfl,single hissue⟩) fun i => rfl
  | passed hrest hissue hmode htail hlen =>
      exact .of_unpainted (.inr ⟨_,rfl,single hissue⟩) fun i => rfl
  | empty hrest =>
      exact .of_unpainted (.inl (Run.underran_behind hrest Nat.zero_lt_one)) fun i => rfl
  | single hrest =>
      exact .of_unpainted (.inl (Run.underran_behind (rest_behind_one hrest) Nat.zero_lt_one))
        fun i => rfl
  | fillShort hrest hissue hlen =>
      refine .of_unpainted (.inl (Run.underran_behind (rest_behind hrest) hlen)) ?_
      intro i
      rw [Trace.paintOn_append, paintOn_opening, paintOn_ignored]
  | passShort hrest hissue hmode htail hlen =>
      exact .of_unpainted (.inl (Run.underran_behind (rest_behind hrest) hlen)) fun i => rfl

theorem readBands_read (hn : h.numBands = 1 ∨ h.numBands = 3) (harea : h.HasArea area)
    (hsmall : area < 2 ^ (60 : Nat)) : BandsRead h area ((Raster.readBands h passing).run c) := by
  rcases hn with hn | hn
  · rw [Raster.readBands, if_pos hn]
    exact grayscale_read hn harea hsmall
  · have hne : ¬h.numBands = 1 := by omega
    rw [Raster.readBands, if_neg hne, if_pos hn, rgb, hn]
    exact .of_walked hn (walked harea hsmall 3 c 0 (by decide) none)

/-- Where records have one byte for each pixel, bytes never lack for bands that are not
passed over. -/
theorem readBands_ok_of_le (hn : h.numBands = 1 ∨ h.numBands = 3) (harea : h.HasArea area)
    (hsmall : area < 2 ^ (60 : Nat)) (hlen : h.numBands.toNat * (2 + area) ≤ c.remaining) :
    ∃ issues, ((Raster.readBands h false).run c).result = .ok issues := by
  rcases hn with hn | hn
  · rw [hn, Int.toNat_one, Nat.one_mul] at hlen
    rw [Raster.readBands, if_pos hn]
    exact grayscale_ok_of_le harea hsmall hlen
  · have hne : ¬h.numBands = 1 := by omega
    rw [Raster.readBands, if_neg hne, if_pos hn, rgb]
    exact bandsFrom_ok_of_le harea hsmall _ c 0 (by omega) none hlen

end BandStream

namespace Raster

/-- The raster belongs to the header: its fields are those of the header, its
image has a pixel for every place and is nowhere transparent, and the channels of
the bands that it skipped are blank. -/
structure Proper (h : Header) (raster : Raster) : Prop where
  extent : h.extent = .ok raster.extent
  width : raster.width = h.width
  height : raster.height = h.height
  srid : raster.srid = h.srid
  size : raster.image.HasSize (h.width * h.height).toNat
  length_packed : raster.image.packed.length = 4 * (h.width * h.height).toNat
  alpha : ∀ n < (h.width * h.height).toNat, raster.image.packed[4 * n + 3]? = some 0xFF
  sorted : (raster.skipped.map BandIssue.band).Pairwise (· < ·)
  within : ∀ issue ∈ raster.skipped, (issue.band : Int) < h.numBands
  blank : ∀ issue ∈ raster.skipped, ∀ channel : Channel,
    channel.bandOf? h.numBands = some issue.band →
      raster.image.plane channel = List.replicate (h.width * h.height).toNat 0xFF

theorem plane_blank (count : Nat) (channel : Channel) :
    (Image.blank count).plane channel = List.replicate count 0xFF := by
  cases channel <;> rfl

theorem proper_assemble {h : Header} {area : Nat} {r : Run (List BandIssue)}
    {issues : List BandIssue} (hw : Header.FitsUInt16 h.width) (hh : Header.FitsUInt16 h.height)
    (harea : h.HasArea area) (hread : BandStream.BandsRead h area r) (hok : r.result = .ok issues) :
    Proper h (assemble h r.trace issues) := by
  have hnat := Header.toNat_area harea
  have hsize : (r.trace.paintOn (Image.blank area)).HasSize area :=
    hread.size _ (Image.hasSize_filled area _ _ _ _)
  have himage : (assemble h r.trace issues).image = r.trace.paintOn (Image.blank area) := by
    rw [assemble, harea.area_eq]
    rfl
  have hrise : BandStream.Rising 0 h.numBands.toNat issues := by
    rcases hread.ends with ⟨_,-,herr⟩ | ⟨issues',hok',hrise⟩
    · rw [herr] at hok
      cases hok
    · rw [hok'] at hok
      cases hok
      exact hrise
  constructor
  · exact Header.extent_of_fits hw hh
  · rfl
  · rfl
  · rfl
  · rw [himage, hnat]
    exact hsize
  · rw [himage, hnat]
    exact Image.length_packed hsize
  · intro n hlt
    rw [hnat] at hlt
    have hp := Image.getElem?_packed hsize .alpha hlt
    rw [himage]
    refine hp.trans ?_
    rw [Image.plane, hread.alpha]
    exact List.getElem?_replicate_of_lt hlt
  · exact hrise.sorted
  · intro issue hissue
    have hlt := (hrise.within issue hissue).2
    omega
  · intro issue hissue channel hchannel
    rw [himage, hnat, hread.leftOut issues hok issue hissue channel hchannel, plane_blank]

theorem unrotated_iff (h : Header) :
    h.Unrotated ↔ h.skewX.magnitude = 0 ∧ h.skewY.magnitude = 0 := by
  simp only [Header.Unrotated, Double.isZero, decide_eq_true_eq]

variable {s : Settings} {data : List UInt8}

theorem decode_version (hsize : data.length ≤ s.maxInputBytes) (hlong : 3 ≤ data.length)
    (hversion : (Header.ofBytes data).version ≠ 0) :
    (decode s data).result =
        .error (.decode (.unsupportedVersion (Header.ofBytes data).version)) ∧
      (decode s data).cursor.offset = 3 := by
  have hp := Header.parse_version (c := Cursor.start data none) rfl hlong hversion
  rw [decode_of_le hsize, run_readBody_of_error (by rw [hp]), hp]
  exact ⟨rfl,rfl⟩

theorem decode_rotation (hsize : data.length ≤ s.maxInputBytes) (hlong : 53 ≤ data.length)
    (hversion : (Header.ofBytes data).version = 0) (hrot : ¬(Header.ofBytes data).Unrotated) :
    (decode s data).result = .error (.decode
        (.unsupportedRotation (Header.ofBytes data).skewX (Header.ofBytes data).skewY)) ∧
      (decode s data).cursor.offset = 53 := by
  have hp := Header.parse_rotation (c := Cursor.start data none) rfl hversion hlong hrot
  rw [decode_of_le hsize, run_readBody_of_error (by rw [hp]), hp]
  exact ⟨rfl,rfl⟩

/-- A header that cannot be read whole leaves the decoding underrun, unless one of the
fields that are there is objected to. -/
theorem decode_short (hsize : data.length ≤ s.maxInputBytes) (hshort : data.length < 61)
    (hversion : 3 ≤ data.length → (Header.ofBytes data).version = 0)
    (hrot : 53 ≤ data.length → (Header.ofBytes data).Unrotated) : (decode s data).Underran := by
  rw [decode_of_le hsize]
  apply Run.Underran.bind
  rcases Nat.lt_or_ge data.length 3 with h3 | h3
  · exact Header.parse_short rfl h3
  · rcases Nat.lt_or_ge data.length 53 with h53 | h53
    · exact Header.parse_short_skew rfl (hversion h3) h3 h53
    · exact Header.parse_short_size rfl (hversion h3) (hrot h53) h53 hshort

theorem decode_bands (hsize : data.length ≤ s.maxInputBytes)
    (ha : Header.Accepted data)
    (hn : (Header.ofBytes data).numBands = 1 ∨ (Header.ofBytes data).numBands = 3) :
    (decode s data).Underran ∨
      ∃ raster, (decode s data).result = .ok raster ∧ Proper (Header.ofBytes data) raster := by
  have hw := Header.ofBytes_width_fits data
  have hh := Header.ofBytes_height_fits data
  obtain ⟨area,harea,hsmall⟩ := Header.area_of_fits hw hh
  have hread : BandStream.BandsRead (Header.ofBytes data) area
      ((readBands (Header.ofBytes data) s.skipUnsupportedPayload).run
        ((Cursor.start data none).opened 61)) := BandStream.readBands_read hn harea hsmall
  rcases hread.ends with ⟨needed,hlt,herr⟩ | ⟨issues,hok,-⟩
  · rw [decode_accepted hsize ha]
    exact .inl ⟨needed,hlt,by simp only [finish, herr, Except.map]⟩
  · exact .inr ⟨_,decode_ok_of_readBands hsize ha hok,proper_assemble hw hh harea hread hok⟩

/-- The end of every decoding: what decides it, how far the input is consumed, and
what a raster that it returns is like. The conditions are looked at in this order,
and nothing else ever ends a decoding. -/
theorem decode_outcome (s : Settings) (data : List UInt8) :
    let run := decode s data
    let h := Header.ofBytes data
    if s.maxInputBytes < data.length then
      run.result = .error (.decode (.inputTooLarge data.length s.maxInputBytes)) ∧
        run.cursor.offset = 0
    else if 3 ≤ data.length ∧ h.version ≠ 0 then
      run.result = .error (.decode (.unsupportedVersion h.version)) ∧ run.cursor.offset = 3
    else if 53 ≤ data.length ∧ (h.skewX.magnitude ≠ 0 ∨ h.skewY.magnitude ≠ 0) then
      run.result = .error (.decode (.unsupportedRotation h.skewX h.skewY)) ∧
        run.cursor.offset = 53
    else if 61 ≤ data.length ∧ h.numBands ≠ 1 ∧ h.numBands ≠ 3 then
      run.result = .error (.decode (.unsupportedBandCount h.numBands)) ∧ run.cursor.offset = 61
    else
      run.Underran ∨ 61 ≤ data.length ∧ ∃ raster, run.result = .ok raster ∧ Proper h raster := by
  intro run h
  split_ifs with hlarge hversion hrotation hcount
  · have hrun : run = _ := decode_tooLarge hlarge
    rw [hrun]
    exact ⟨rfl,rfl⟩
  · exact decode_version (Nat.not_lt.mp hlarge) hversion.1 hversion.2
  · have hv : h.version = 0 := by omega
    have hrot : ¬h.Unrotated := by
      rw [unrotated_iff]
      omega
    exact decode_rotation (Nat.not_lt.mp hlarge) hrotation.1 hv hrot
  · have hv : h.version = 0 := by omega
    have hrot : h.Unrotated := by
      rw [unrotated_iff]
      omega
    exact decode_band_count (Nat.not_lt.mp hlarge) ⟨hcount.1,hv,hrot⟩ hcount.2.1 hcount.2.2
  · have hsize := Nat.not_lt.mp hlarge
    have hv : 3 ≤ data.length → h.version = 0 := by omega
    have hrot : 53 ≤ data.length → h.Unrotated := by
      intro h53
      rw [unrotated_iff]
      omega
    rcases Nat.lt_or_ge data.length 61 with h61 | h61
    · exact .inl (decode_short hsize h61 hv hrot)
    · have ha : Header.Accepted data := ⟨h61,hv (by omega),hrot (by omega)⟩
      have hn : h.numBands = 1 ∨ h.numBands = 3 := by omega
      rcases decode_bands hsize ha hn with hu | ⟨raster,hok,hproper⟩
      · exact .inl hu
      · exact .inr ⟨h61,raster,hok,hproper⟩

end Raster

end RasterWkb
