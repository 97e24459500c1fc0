import RasterWkb.Proofs.PartingWalk

/-!
# The two modes compared

The header is read before the mode is looked at, so what is known about the two
ways to read the bands carries over to decoding. The same holds of the ends of
decoding in front of the bands, where the modes do not differ at all. What two
rasters have in common is what was settled before the modes parted.
-/
namespace RasterWkb

/-- The trace tells of no band. -/
def Trace.Bandless (t : Trace) : Prop :=
  ∀ role band, role.band? = some band → t.offsetOf? role = none

theorem Trace.Bandless.tame {t : Trace} (h : t.Bandless) (data : List UInt8) : t.Tame data := by
  intro band place issue hm
  have hkind := hm.kindAt
  rw [h (.bandType band) band rfl] at hkind
  cases hkind

theorem Header.bandless_parse (c : Cursor) : (parse.run c).trace.Bandless := by
  intro role band hrole
  apply List.findSome?_eq_none_iff.mpr
  intro mark hmark
  have hleft := leaves_parse c mark hmark
  cases mark with
  | took other offset size =>
      have hne : other ≠ role := by
        rintro rfl
        rw [show other = .field from hleft] at hrole
        cases hrole
      exact if_neg hne
  | _ => rfl

theorem Trace.meets_behind_iff {s t : Trace} (hs : s.Bandless) {data : List UInt8}
    {band place : Nat} {issue : BandIssue} :
    (s ++ t).Meets data band place issue ↔ t.Meets data band place issue := by
  have hkind : (s ++ t).offsetOf? (.bandType band) = t.offsetOf? (.bandType band) := by
    rw [offsetOf?_append, hs _ band rfl, Option.none_or]
  have hnodata : (s ++ t).offsetOf? (.nodata band) = t.offsetOf? (.nodata band) := by
    rw [offsetOf?_append, hs _ band rfl, Option.none_or]
  constructor
  · rintro ⟨hat,hread,htold⟩
    exact ⟨hkind ▸ hat,hnodata ▸ hread,htold⟩
  · rintro ⟨hat,hread,htold⟩
    exact ⟨hkind.trans hat,by rw [hnodata]; exact hread,htold⟩

theorem Trace.meetsFirst_behind_iff {s t : Trace} (hs : s.Bandless) {data : List UInt8}
    {band place : Nat} {issue : BandIssue} :
    (s ++ t).MeetsFirst data band place issue ↔ t.MeetsFirst data band place issue := by
  constructor
  · rintro ⟨hm,hfirst⟩
    exact ⟨(meets_behind_iff hs).mp hm,fun earlier hlt place issue h =>
      hfirst earlier hlt place issue ((meets_behind_iff hs).mpr h)⟩
  · rintro ⟨hm,hfirst⟩
    exact ⟨(meets_behind_iff hs).mpr hm,fun earlier hlt place issue h =>
      hfirst earlier hlt place issue ((meets_behind_iff hs).mp h)⟩

/-- The settings with records passed over or not. -/
def Settings.withPassing (s : Settings) (passing : Bool) : Settings :=
  { s with skipUnsupportedPayload := passing }

namespace Raster
open BandStream
variable {s : Settings} {data : List UInt8}

/-- Two rasters agree on what comes from the header, on the bands in front of the given one,
and in that one being blank and the first to be left out. -/
structure AgreeUpTo (numBands : Int) (band : Nat) (issue : BandIssue) (r r' : Raster) : Prop where
  extent : r.extent = r'.extent
  width : r.width = r'.width
  height : r.height = r'.height
  srid : r.srid = r'.srid
  below : ∀ (channel : Channel) (earlier : Nat), channel.bandOf? numBands = some earlier →
    earlier < band → r.image.plane channel = r'.image.plane channel
  blank : ∀ channel : Channel, channel.bandOf? numBands = some band →
    r.image.plane channel = List.replicate (r.width * r.height).toNat 0xFF ∧
      r'.image.plane channel = List.replicate (r.width * r.height).toNat 0xFF
  first : r.skipped.head? = some issue ∧ r'.skipped.head? = some issue

/-- Decoding in the two modes: it is the same, and meets no band that cannot be decoded, or
all that differs is how the bands are read. -/
theorem decode_parting (s : Settings) (data : List UInt8) :
    (decode (s.withPassing true) data = decode (s.withPassing false) data ∧
        (decode (s.withPassing false) data).trace.Tame data) ∨
      ∃ stay pass, Parting data (Header.ofBytes data) stay pass ∧
        decode (s.withPassing false) data =
          finish (Header.ofBytes data) (headerTrace 0 (Header.ofBytes data)) stay ∧
        decode (s.withPassing true) data =
          finish (Header.ofBytes data) (headerTrace 0 (Header.ofBytes data)) pass := by
  rcases Nat.lt_or_ge s.maxInputBytes data.length with hlarge | hsize
  · refine .inl ?_
    rw [decode_tooLarge (s := s.withPassing true) hlarge,
      decode_tooLarge (s := s.withPassing false) hlarge]
    exact ⟨rfl,Trace.tame_nil data⟩
  cases hparse : (Header.parse.run (Cursor.start data none)).result with
  | error fault =>
      refine .inl ?_
      rw [decode_of_le (s := s.withPassing true) hsize,
        decode_of_le (s := s.withPassing false) hsize, run_readBody_of_error hparse,
        run_readBody_of_error hparse]
      exact ⟨rfl,(Header.bandless_parse _).tame data⟩
  | ok h =>
      obtain ⟨ha,-⟩ := accepted_of_parse hparse
      rw [decode_accepted (s := s.withPassing true) hsize ha,
        decode_accepted (s := s.withPassing false) hsize ha]
      by_cases hn : (Header.ofBytes data).numBands = 1 ∨ (Header.ofBytes data).numBands = 3
      · obtain ⟨area,harea,hsmall⟩ := Header.area_of_fits (Header.ofBytes_width_fits data)
          (Header.ofBytes_height_fits data)
        exact .inr ⟨_,_,readBands_parting hn harea hsmall rfl,rfl,rfl⟩
      · rw [not_or] at hn
        have hreject : ∀ passing, readBands (Header.ofBytes data) passing = Reading.reject
            (.bandCountRejected (Header.ofBytes data).numBands)
            (.decode (.unsupportedBandCount (Header.ofBytes data).numBands)) := by
          intro passing
          rw [readBands, if_neg hn.1, if_neg hn.2]
        refine .inl ?_
        rw [hreject, hreject]
        refine ⟨rfl,Trace.Bandless.tame ?_ data⟩
        intro role band hrole
        rw [finish, Trace.offsetOf?_append, offsetOf?_headerTrace 0 _ hrole]
        rfl

/-- What two runs share that part behind the same trace. -/
theorem agreeUpTo_of_leaves {h : Header} {k place : Nat} {kind : UInt8} {issue : BandIssue}
    {t : Trace} {stay pass : Run (List BandIssue)} {issues issues' : List BandIssue}
    (ht : Decoded data 0 k t) (hstay : Leaves h.numBands k place kind issue t stay)
    (hpass : Leaves h.numBands k place kind issue t pass) (hok : stay.result = .ok issues)
    (hok' : pass.result = .ok issues') :
    AgreeUpTo h.numBands k issue (assemble h stay.trace issues)
      (assemble h pass.trace issues') where
  extent := rfl
  width := rfl
  height := rfl
  srid := rfl
  below := by
    intro channel earlier hchannel hlt
    rw [assemble, assemble, hstay.kept issues hok channel earlier hchannel (Nat.le_of_lt hlt),
      hpass.kept issues' hok' channel earlier hchannel (Nat.le_of_lt hlt)]
  blank := by
    intro channel hchannel
    have hle := Channel.le_position_of_bandOf? hchannel
    rw [assemble, assemble, hstay.kept issues hok channel k hchannel (Nat.le_refl k),
      hpass.kept issues' hok' channel k hchannel (Nat.le_refl k),
      ht.frame _ channel (.inr (by omega)), plane_blank]
    exact ⟨rfl,rfl⟩
  first := ⟨hstay.head issues hok,hpass.head issues' hok'⟩

theorem meetsFirst_finish_iff {h : Header} {k place : Nat} {kind : UInt8} {issue : BandIssue}
    {t : Trace} {bands : Run (List BandIssue)} (ht : Decoded data 0 k t)
    (hkind : data[place]? = some kind) (hissue : BandIssue.ofKind? k kind = some issue)
    (hleaves : Leaves h.numBands k place kind issue t bands) {band place' : Nat}
    {issue' : BandIssue} :
    (finish h (headerTrace 0 h) bands).trace.MeetsFirst data band place' issue' ↔
      band = k ∧ place' = place ∧ issue' = issue := by
  obtain ⟨u,hu⟩ := hleaves.opened
  have hbehind : (finish h (headerTrace 0 h) bands).trace.MeetsFirst data band place' issue' ↔
      bands.trace.MeetsFirst data band place' issue' :=
    Trace.meetsFirst_behind_iff fun _ _ => offsetOf?_headerTrace 0 h
  rw [hbehind, hu]
  exact meetsFirst_iff ht hkind hissue

/-- The last band is left out of both rasters, if the run that passes over it gets to one. -/
theorem ends_of_leavesLast {h : Header} {k place : Nat} {kind : UInt8} {issue : BandIssue}
    {front t : Trace} {stay pass : Run (List BandIssue)}
    (hstay : LeavesLast false data h.area k place kind issue t stay)
    (hpass : LeavesLast true data h.area k place kind issue t pass) :
    ∃ r, (finish h front stay).result = .ok r ∧
      ((finish h front pass).result = .ok r ∨
        BreaksPassing data h.area place (finish h front pass)) := by
  have hok : stay.result = .ok [issue] := by
    rcases hstay.ends with hok | ⟨hmode,-⟩
    · exact hok
    · cases hmode
  refine ⟨assemble h stay.trace [issue],by rw [finish, hok]; rfl,?_⟩
  rcases hpass.ends with hok' | ⟨-,kind,size,hkind,htail,hlt,herr,hoffset⟩
  · refine .inl ?_
    rw [finish, hok', Except.map, assemble, assemble, hstay.painted, hpass.painted]
  · exact .inr ⟨kind,size,hkind,htail,hlt,by rw [finish, herr]; rfl,hoffset⟩

/-- How the run that stays behind the opening of a band that cannot be decoded compares with
the one that passes over the record. -/
structure ModesCompare (data : List UInt8) (h : Header) (stay pass : Run Raster) : Prop where
  /-- Without such a band they are the same. -/
  alike : stay.trace.Tame data → pass.result = stay.result ∧
    pass.trace.lines = stay.trace.lines ∧ pass.cursor.offset = stay.cursor.offset
  /-- They meet the same band first, at the same place and for the same reason. -/
  first : ∀ band place issue, stay.trace.MeetsFirst data band place issue ↔
    pass.trace.MeetsFirst data band place issue
  within : ∀ band place issue, stay.trace.MeetsFirst data band place issue →
    (band : Int) < h.numBands
  agree : ∀ band place issue, stay.trace.MeetsFirst data band place issue →
    ∀ r r', stay.result = .ok r → pass.result = .ok r' → AgreeUpTo h.numBands band issue r r'
  /-- If that is the last band, both have come to their ends, but for a record that is cut off. -/
  last : ∀ band place issue, stay.trace.MeetsFirst data band place issue →
    (band : Int) + 1 = h.numBands →
      ∃ r, stay.result = .ok r ∧ (pass.result = .ok r ∨ BreaksPassing data h.area place pass)

theorem ModesCompare.same {h : Header} {run : Run Raster} (htame : run.trace.Tame data) :
    ModesCompare data h run run where
  alike := fun _ => ⟨rfl,rfl,rfl⟩
  first := fun _ _ _ => Iff.rfl
  within := fun band place issue hfirst => absurd hfirst.meets (htame band place issue)
  agree := fun band place issue hfirst => absurd hfirst.meets (htame band place issue)
  last := fun band place issue hfirst => absurd hfirst.meets (htame band place issue)

/-- The two modes of decoding compare like this on every buffer. -/
theorem decode_modes (s : Settings) (data : List UInt8) :
    ModesCompare data (Header.ofBytes data) (decode (s.withPassing false) data)
      (decode (s.withPassing true) data) := by
  rcases decode_parting s data with ⟨heq,htame⟩ | ⟨stay,pass,hparting,hstay,hpass⟩
  · rw [heq]
    exact .same htame
  rw [hstay, hpass]
  cases hparting with
  | alike heq htame =>
      rw [heq]
      refine .same fun band place issue hm => ?_
      exact htame band place issue ((Trace.meets_behind_iff fun _ _ =>
        offsetOf?_headerTrace 0 (Header.ofBytes data)).mp hm)
  | @apart k place kind issue t hk hdecoded hkind hissue hleaves hleaves' hlast =>
      have hstayFirst := @meetsFirst_finish_iff _ _ _ _ _ _ _ _ hdecoded hkind hissue hleaves
      have hpassFirst := @meetsFirst_finish_iff _ _ _ _ _ _ _ _ hdecoded hkind hissue hleaves'
      constructor
      · intro htame
        exact absurd (hstayFirst.mpr ⟨rfl,rfl,rfl⟩).meets (htame k place issue)
      · intro band place' issue'
        exact hstayFirst.trans hpassFirst.symm
      · intro band place' issue' hfirst
        obtain ⟨rfl,-,-⟩ := hstayFirst.mp hfirst
        omega
      · intro band place' issue' hfirst r r' hok hok'
        obtain ⟨rfl,-,rfl⟩ := hstayFirst.mp hfirst
        obtain ⟨issues,hissues,rfl⟩ := ok_of_finish hok
        obtain ⟨issues',hissues',rfl⟩ := ok_of_finish hok'
        exact agreeUpTo_of_leaves hdecoded hleaves hleaves' hissues hissues'
      · intro band place' issue' hfirst hend
        obtain ⟨rfl,rfl,-⟩ := hstayFirst.mp hfirst
        obtain ⟨hstayLast,hpassLast⟩ := hlast (by omega)
        exact ends_of_leavesLast hstayLast hpassLast

/-- The modes can part for good: another sample is painted in every band behind the first. -/
theorem modes_part_misread :
    ∃ r r', (decode (Settings.standard.withPassing false) misread).result = .ok r ∧
      (decode (Settings.standard.withPassing true) misread).result = .ok r' ∧
      AgreeUpTo 3 0 (.unsupportedPixelType 0 5) r r' ∧
      r.image.plane .blue = [8] ∧ r'.image.plane .blue = [2] := by
  obtain ⟨r,hok,hblue⟩ : ∃ r, (decode (Settings.standard.withPassing false) misread).result =
      .ok r ∧ r.image.plane .blue = [8] := ⟨_,rfl,rfl⟩
  obtain ⟨r',hok',hblue'⟩ : ∃ r', (decode (Settings.standard.withPassing true) misread).result =
      .ok r' ∧ r'.image.plane .blue = [2] := ⟨_,rfl,rfl⟩
  have hmeets : (decode (Settings.standard.withPassing false) misread).trace.MeetsFirst misread
      0 61 (.unsupportedPixelType 0 5) :=
    ⟨⟨rfl,rfl,5,rfl,rfl⟩,fun _ hlt => absurd hlt (Nat.not_lt_zero _)⟩
  exact ⟨r,r',hok,hok',(decode_modes .standard misread).agree 0 61 _ hmeets r r' hok hok',hblue,
    hblue'⟩

end Raster

end RasterWkb
