import RasterWkb.Proofs.BandReports
import RasterWkb.Proofs.Outcomes
import RasterWkb.Proofs.WholeRecords

/-!
# Diagnostics and results

What a decoding reports agrees with what it comes to. An input that is too large is
refused in silence. A header that is objected to leaves one warning, the last report of
all. A raster is told about from beginning to end: the header, the extent, and the bands
in the order in which they were visited, each with its warning if it was left out. That
the bands behind one could not be found is said of a raster, and nowhere else.

The lines of a decoding are the texts of its reports, one for one, so everything is first
stated of the reports.
-/
namespace RasterWkb

/-- The reports about a header that is accepted: five of the header itself, then its extent. -/
def Header.events (h : Header) (extent : Extent) : List Event :=
  [.format h.version h.numBands, .scale h.scaleX h.scaleY, .origin h.originX h.originY,
    .skew h.skewX h.skewY, .size h.srid h.width h.height, .extent extent]

theorem Header.level_events {h : Header} {extent : Extent} :
    ∀ event ∈ h.events extent, event.level = .debug := by
  intro event hevent
  simp only [events, List.mem_cons, List.not_mem_nil, or_false] at hevent
  rcases hevent with rfl | rfl | rfl | rfl | rfl | rfl <;> rfl

/-- The reports end in a warning, and there is no other warning among them. -/
def EndsInWarning (event : Event) (events : List Event) : Prop :=
  ∃ front, events = front ++ [event] ∧ event.level = .warning ∧
    ∀ other ∈ front, other.level = .debug

theorem not_mem_of_debug {events : List Event} (h : ∀ event ∈ events, event.level = .debug)
    (band : Nat) : .walkEnded band ∉ events := by
  intro hmem
  cases h _ hmem

theorem issueWarnings_debug {events : List Event}
    (h : ∀ event ∈ events, event.level = .debug) : issueWarnings events = [] := by
  rw [issueWarnings, List.filter_eq_nil_iff]
  intro event hevent
  rw [h event hevent]
  exact Bool.false_ne_true

namespace Raster
open BandStream
variable {s : Settings} {data : List UInt8} {h : Header} {passing : Bool}

/-- What is reported about a raster that is returned. The bands that were visited are those
with the type bytes, and there is one group of reports for each. -/
structure Told (passing : Bool) (data : List UInt8) (h : Header) (raster : Raster) (t : Trace)
    (kinds : List UInt8) (groups : List (List Event)) : Prop where
  events : t.events = h.events raster.extent ++ groups.flatten
  visits : t.Visits data 0 kinds
  count : groups.length = kinds.length
  group : ∀ (band : Nat) (group : List Event), groups[band]? = some group →
    ∃ kind, kinds[band]? = some kind ∧ Group band kind raster.skipped group
  warnings : issueWarnings t.events = raster.skipped.map .bandLeftOut
  ending : Ending (passing && h.numBands == 3) 0 h.numBands.toNat kinds t.events

/-- What is reported, by what the decoding comes to. -/
inductive Diagnosed (s : Settings) (data : List UInt8) (r : Run Raster) : Prop
  | tooLarge {size limit : Nat} (hresult : r.result = .error (.decode (.inputTooLarge size limit)))
      (hevents : r.trace.events = [])
  | version {version : Int} (hresult : r.result = .error (.decode (.unsupportedVersion version)))
      (hevents : EndsInWarning (.versionRejected version) r.trace.events)
  | rotation {x y : Double} (hresult : r.result = .error (.decode (.unsupportedRotation x y)))
      (hevents : EndsInWarning .rotationRejected r.trace.events)
  | bandCount {count : Int} (hresult : r.result = .error (.decode (.unsupportedBandCount count)))
      (hevents : EndsInWarning (.bandCountRejected count) r.trace.events)
  | underrun (hresult : r.Underran) (hnever : ∀ band, .walkEnded band ∉ r.trace.events)
  | returned {raster : Raster} {kinds : List UInt8} {groups : List (List Event)}
      (hresult : r.result = .ok raster)
      (htold : Told s.skipUnsupportedPayload data (Header.ofBytes data) raster r.trace kinds groups)

theorem events_headerTrace (offset : Nat) (h : Header) :
    (headerTrace offset h).events = h.events h.box := rfl

theorem visits_headerTrace (offset : Nat) (h : Header) : (headerTrace offset h).visits = [] := rfl

theorem readBands_reported {area : Nat} {c : Cursor} (hn : h.numBands = 1 ∨ h.numBands = 3)
    (harea : h.HasArea area) (hsmall : area < 2 ^ (60 : Nat)) (hc : c.Within data) :
    Reported data (passing && h.numBands == 3) 0 h.numBands.toNat
      ((readBands h passing).run c) := by
  rcases hn with hn | hn
  · rw [readBands, if_pos hn, hn]
    have hends : (passing && (1 : Int) == 3) = false := Bool.and_false passing
    rw [hends]
    exact grayscale_reported harea hsmall hc
  · have hne : ¬h.numBands = 1 := by omega
    rw [readBands, if_neg hne, if_pos hn, rgb, hn]
    have hends : (passing && (3 : Int) == 3) = passing := Bool.and_true passing
    rw [hends]
    exact bandsFrom_reported harea hsmall 3 c hc 0 (by decide) none

/-- What is reported about the bands follows what is reported about the header. -/
theorem told_of_reports {bands : Trace} {kinds : List UInt8} {issues : List BandIssue}
    {groups : List (List Event)}
    (hreports : Reports (passing && h.numBands == 3) 0 h.numBands.toNat kinds issues groups)
    (hevents : bands.events = groups.flatten) (hvisits : bands.Visits data 0 kinds) :
    Told passing data h (assemble h bands issues) (headerTrace 0 h ++ bands) kinds groups := by
  have hall : (headerTrace 0 h ++ bands).events = h.events h.box ++ groups.flatten := by
    rw [Trace.events_append, events_headerTrace, hevents]
  refine ⟨hall,⟨?_,?_⟩,hreports.length_groups,?_,?_,?_⟩
  · rw [Trace.visits_append, visits_headerTrace]
    exact hvisits.bands
  · rw [Trace.visits_append, visits_headerTrace]
    exact hvisits.bytes
  · intro band group hgroup
    have hg := hreports.group_at hgroup
    rwa [Nat.zero_add] at hg
  · rw [hall, issueWarnings_append, issueWarnings_debug Header.level_events, List.nil_append,
      hreports.issueWarnings_flatten]
    rfl
  · rw [hall]
    exact hreports.ending.behind (not_mem_of_debug Header.level_events)

theorem diagnosed_of_reported {bands : Run (List BandIssue)}
    (hreported : Reported data (s.skipUnsupportedPayload && (Header.ofBytes data).numBands == 3) 0
      (Header.ofBytes data).numBands.toNat bands) :
    Diagnosed s data
      (finish (Header.ofBytes data) (headerTrace 0 (Header.ofBytes data)) bands) := by
  cases hreported with
  | returned hreports hevents hvisits =>
      exact .returned rfl (told_of_reports hreports hevents hvisits)
  | broken hunder hnever =>
      obtain ⟨needed,hlt,herr⟩ := hunder
      refine .underrun ⟨needed,hlt,by simp only [finish, herr, Except.map]⟩ fun band => ?_
      rw [finish, Trace.events_append, events_headerTrace, List.mem_append, not_or]
      exact ⟨not_mem_of_debug Header.level_events band,hnever band⟩

/-- A header that breaks off is reported on by no one but its reader. -/
theorem diagnosed_of_short (hsize : data.length ≤ s.maxInputBytes) (hshort : data.length < 61)
    (hunder : (decode s data).Underran) : Diagnosed s data (decode s data) := by
  refine .underrun hunder fun band hmem => ?_
  cases hparse : (Header.parse.run (Cursor.start data none)).result with
  | error fault =>
      rw [decode_of_le hsize, run_readBody_of_error hparse] at hmem
      cases Header.topic_of_mem_parse hmem
  | ok h =>
      have hlong : Header.byteSize ≤ data.length := (accepted_of_parse hparse).1.long
      rw [Header.byteSize] at hlong
      omega

theorem diagnosed_of_count (hsize : data.length ≤ s.maxInputBytes) (ha : Header.Accepted data)
    (h1 : (Header.ofBytes data).numBands ≠ 1) (h3 : (Header.ofBytes data).numBands ≠ 3) :
    Diagnosed s data (decode s data) := by
  rw [decode_accepted hsize ha, readBands, if_neg h1, if_neg h3]
  exact .bandCount rfl ⟨_,rfl,rfl,Header.level_events⟩

/-- The diagnostics of the inputs that are read at all. -/
theorem diagnosed_of_le (hsize : data.length ≤ s.maxInputBytes) :
    Diagnosed s data (decode s data) := by
  have hopen : (Cursor.start data none).order = none := rfl
  by_cases hversion : 3 ≤ data.length ∧ (Header.ofBytes data).version ≠ 0
  · have hp := Header.parse_version hopen hversion.1 hversion.2
    rw [decode_of_le hsize, run_readBody_of_error (by rw [hp]), hp]
    exact .version rfl ⟨[],rfl,rfl,fun _ hmem => absurd hmem List.not_mem_nil⟩
  by_cases hrotation : 53 ≤ data.length ∧ ¬(Header.ofBytes data).Unrotated
  · have hp := Header.parse_rotation hopen (not_not.mp fun hv => hversion ⟨by omega,hv⟩)
      hrotation.1 hrotation.2
    rw [decode_of_le hsize, run_readBody_of_error (by rw [hp]), hp]
    exact .rotation rfl ⟨[],rfl,rfl,fun _ hmem => absurd hmem List.not_mem_nil⟩
  have hv : 3 ≤ data.length → (Header.ofBytes data).version = 0 :=
    fun h3 => not_not.mp fun hv => hversion ⟨h3,hv⟩
  have hrot : 53 ≤ data.length → (Header.ofBytes data).Unrotated :=
    fun h53 => not_not.mp fun hrot => hrotation ⟨h53,hrot⟩
  rcases Nat.lt_or_ge data.length 61 with h61 | h61
  · exact diagnosed_of_short hsize h61 (decode_short hsize h61 hv hrot)
  have ha : Header.Accepted data := ⟨h61,hv (by omega),hrot (by omega)⟩
  by_cases hn : (Header.ofBytes data).numBands = 1 ∨ (Header.ofBytes data).numBands = 3
  · obtain ⟨area,harea,hsmall⟩ := Header.area_of_fits (Header.ofBytes_width_fits data)
      (Header.ofBytes_height_fits data)
    have hwithin : ((Cursor.start data none).opened 61).Within data := ⟨h61,rfl⟩
    rw [decode_accepted hsize ha]
    exact diagnosed_of_reported (readBands_reported hn harea hsmall hwithin)
  · rw [not_or] at hn
    exact diagnosed_of_count hsize ha hn.1 hn.2

/-- The diagnostics of a decoding agree with what it comes to, for all settings and buffers. -/
theorem decode_diagnosed (s : Settings) (data : List UInt8) :
    Diagnosed s data (decode s data) := by
  rcases Nat.lt_or_ge s.maxInputBytes data.length with hlarge | hsize
  · rw [decode_tooLarge hlarge]
    exact .tooLarge rfl rfl
  · exact diagnosed_of_le hsize

/-- Three bands of one pixel, of which the second one is stored elsewhere. -/
example :
    (decode ⟨true,4096,by decide⟩ (onePixel ([0x44,0,7] ++ [0x84,1]))).trace.lines.drop 6 =
      ["DEBUG pgraster.codec.planes band 0 type:4 offline:False hasnodata:True",
        "DEBUG pgraster.codec.planes band 1 type:4 offline:True hasnodata:False",
        "WARNING pgraster.codec.planes offline band 1 unsupported",
        "WARNING pgraster.codec.planes cannot locate the band after band 1, "
          ++ "remaining bands left blank"] := by
  decide +kernel

end Raster

end RasterWkb
