import Mathlib.Data.List.Basic
import RasterWkb.Proofs.Diagnostics

/-!
# The log lines of a decoding

What a decoding logs is read off the texts of its lines. A line opens with its level and its
topic; behind these, a warning about a band says what is the matter. The texts tell the same
as the reports that they are written from: which lines are warnings, which of these remark on
a nodata value, and which one says that the bands behind another could not be found. With
those taken away, the warnings of a raster are the messages of the bands that were left out.
-/
namespace RasterWkb

/-! ### Texts -/

/-- What the warnings about bands open with. -/
def bandWarning : String :=
  "WARNING pgraster.codec.planes "

/-- What a line says about bands, if it is a warning. -/
def bandText? (line : String) : Option (List Char) :=
  bandWarning.toList.isPrefixOf? line.toList

/-- The text is "nodata value …" or "band … nodataval …". -/
def isNodataText (text : List Char) : Bool :=
  "nodata value ".toList.isPrefixOf text ||
    ("band ".toList.isPrefixOf? text).any fun rest =>
      " nodataval ".toList.isPrefixOf (rest.dropWhile Char.isDigit)

/-- The text is "cannot locate the band after …". -/
def isEndText (text : List Char) : Bool :=
  "cannot locate the band after ".toList.isPrefixOf text

def isWarningLine (line : String) : Bool :=
  "WARNING ".toList.isPrefixOf line.toList

def isEndLine (line : String) : Bool :=
  (bandText? line).any isEndText

/-- The line is a warning that does not remark on a nodata value, nor on the end of a walk. -/
def isIssueLine (line : String) : Bool :=
  isWarningLine line && !(bandText? line).any fun text => isNodataText text || isEndText text

theorem toList_toString (n : Nat) : (toString n).toList = Nat.toDigits 10 n := by
  rw [Nat.toString_eq_ofList_toDigits, String.toList_ofList]

/-- What stands behind a number. -/
theorem dropWhile_number (n : Nat) {rest : List Char} (h : rest.dropWhile Char.isDigit = rest) :
    ((toString n).toList ++ rest).dropWhile Char.isDigit = rest := by
  rw [toList_toString, List.dropWhile_append_of_pos, h]
  exact fun c hc => Nat.isDigit_of_mem_toDigits (by decide) (by decide) hc

theorem isNodataText_numbered (band : Nat) {rest : List Char}
    (h : rest.dropWhile Char.isDigit = rest) :
    isNodataText ("band ".toList ++ ((toString band).toList ++ rest)) =
      " nodataval ".toList.isPrefixOf rest := by
  have hother : "nodata value ".toList.isPrefixOf
      ("band ".toList ++ ((toString band).toList ++ rest)) = false := by
    simp [List.isPrefixOf]
  have hopens : "band ".toList.isPrefixOf?
      ("band ".toList ++ ((toString band).toList ++ rest)) =
        some ((toString band).toList ++ rest) := List.isPrefixOf?_eq_some_iff_append_eq.mpr rfl
  rw [isNodataText, hother, hopens, Option.any_some, dropWhile_number band h, Bool.false_or]

namespace Event

theorem isWarningLine_line (e : Event) : isWarningLine e.line = (e.level == .warning) := by
  rw [isWarningLine, line_eq]
  cases e.level <;> simp [Level.text, List.isPrefixOf]

theorem line_of_bands {e : Event} (hlevel : e.level = .warning) (htopic : e.topic = .bands) :
    e.line = bandWarning ++ e.message := by
  have hheading : Level.warning.text ++ " " ++ Topic.bands.text ++ " " = bandWarning := by
    decide +kernel
  rw [line_eq, hlevel, htopic, hheading]

/-- Only the warnings about bands say something about bands. -/
theorem bandText?_line (e : Event) :
    bandText? e.line =
      if e.level = .warning ∧ e.topic = .bands then some e.message.toList else none := by
  rw [bandText?, line_eq, bandWarning]
  cases e.level <;> cases e.topic <;> simp [Level.text, Topic.text, List.isPrefixOf?]

/-- How the message of a warning about bands is put together. -/
inductive Says : Event → List Char → Prop
  | ignored (value : UInt8) (rest : List Char) :
      Says (.nodataIgnored value) ("nodata value ".toList ++ rest)
  | differs (band : Nat) (value first : UInt8) (rest : List Char) :
      Says (.nodataDiffers band value first)
        ("band ".toList ++ ((toString band).toList ++ (" nodataval ".toList ++ rest)))
  | undecodable (band : Nat) (code : Int) (rest : List Char) :
      Says (.bandLeftOut (.unsupportedPixelType band code))
        ("band ".toList ++ ((toString band).toList ++ (" type ".toList ++ rest)))
  | offline (band : Nat) (rest : List Char) :
      Says (.bandLeftOut (.offline band)) ("offline band ".toList ++ rest)
  | ended (band : Nat) (rest : List Char) :
      Says (.walkEnded band) ("cannot locate the band after ".toList ++ rest)

theorem says_message {e : Event} (hlevel : e.level = .warning) (htopic : e.topic = .bands) :
    Says e e.message.toList := by
  cases e with
  | nodataIgnored value =>
      have htext : (nodataIgnored value).message =
          "nodata value " ++ (toString value.toNat ++ " unsupported") := by
        rw [← String.append_assoc]
        rfl
      rw [htext, String.toList_append]
      exact .ignored value _
  | nodataDiffers band value first =>
      have htext : (nodataDiffers band value first).message =
          "band " ++ (toString band ++ (" nodataval " ++
            (toString value.toNat ++ " != band 0 nodataval " ++ toString first.toNat))) := by
        simp only [← String.append_assoc]
        rfl
      rw [htext, String.toList_append, String.toList_append, String.toList_append]
      exact .differs band value first _
  | bandLeftOut issue =>
      cases issue with
      | unsupportedPixelType band code =>
          have htext : (bandLeftOut (.unsupportedPixelType band code)).message =
              "band " ++ (toString band ++ (" type " ++ (toString code ++ " unsupported"))) := by
            simp only [← String.append_assoc]
            rfl
          rw [htext, String.toList_append, String.toList_append, String.toList_append]
          exact .undecodable band code _
      | offline band =>
          have htext : (bandLeftOut (.offline band)).message =
              "offline band " ++ (toString band ++ " unsupported") := by
            rw [← String.append_assoc]
            rfl
          rw [htext, String.toList_append]
          exact .offline band _
  | walkEnded band =>
      have htext : (walkEnded band).message = "cannot locate the band after " ++
          ("band " ++ toString band ++ ", remaining bands left blank") := by
        rw [← String.append_assoc, ← String.append_assoc]
        rfl
      rw [htext, String.toList_append]
      exact .ended band _
  | versionRejected | rotationRejected | bandCountRejected => cases htopic
  | format | scale | origin | skew | size | extent | band => cases hlevel

/-- The event says that a walk has ended. -/
def isEnd : Event → Bool
  | walkEnded _ => true
  | _ => false

theorem Says.isNodataText {e : Event} {text : List Char} (h : Says e text) :
    isNodataText text = e.isNodata := by
  cases h with
  | ignored => simp [RasterWkb.isNodataText, isNodata, List.isPrefixOf]
  | differs band =>
      rw [isNodataText_numbered _ (by simp)]
      simp [isNodata]
  | undecodable band =>
      rw [isNodataText_numbered _ (by simp)]
      simp [isNodata, List.isPrefixOf]
  | offline | ended => simp [RasterWkb.isNodataText, isNodata, List.isPrefixOf, List.isPrefixOf?]

theorem Says.isEndText {e : Event} {text : List Char} (h : Says e text) :
    isEndText text = e.isEnd := by
  cases h <;> simp [RasterWkb.isEndText, isEnd, List.isPrefixOf]

theorem isEndLine_line (e : Event) : isEndLine e.line = e.isEnd := by
  rw [isEndLine, bandText?_line]
  by_cases h : e.level = .warning ∧ e.topic = .bands
  · rw [if_pos h, Option.any_some, (says_message h.1 h.2).isEndText]
  · rw [if_neg h, Option.any_none]
    cases e with
    | walkEnded => exact absurd ⟨rfl,rfl⟩ h
    | _ => rfl

/-- A line is the warning of an issue exactly if its event is. -/
theorem isIssueLine_line (e : Event) :
    isIssueLine e.line = (e.level == .warning && !e.isAside) := by
  rw [isIssueLine, isWarningLine_line, bandText?_line]
  by_cases h : e.level = .warning ∧ e.topic = .bands
  · have hsays := says_message h.1 h.2
    have haside : (e.isNodata || e.isEnd) = e.isAside := by
      cases e <;> rfl
    rw [if_pos h, Option.any_some, hsays.isNodataText, hsays.isEndText, haside]
  · have haside : e.isAside = false := by
      cases e with
      | nodataIgnored | nodataDiffers | walkEnded => exact absurd ⟨rfl,rfl⟩ h
      | _ => rfl
    rw [if_neg h, Option.any_none, haside]

theorem line_bandLeftOut (issue : BandIssue) :
    (bandLeftOut issue).line = bandWarning ++ issue.message :=
  line_of_bands rfl rfl

end Event

/-! ### Lists of lines -/

theorem filter_isIssueLine (events : List Event) :
    (events.map Event.line).filter isIssueLine = (issueWarnings events).map Event.line := by
  have htest : isIssueLine ∘ Event.line = fun e => e.level == .warning && !e.isAside :=
    funext Event.isIssueLine_line
  rw [List.filter_map, htest, issueWarnings]

theorem map_line_bandLeftOut (issues : List BandIssue) :
    (issues.map Event.bandLeftOut).map Event.line =
      issues.map fun issue => bandWarning ++ issue.message := by
  rw [List.map_map]
  exact List.map_congr_left fun issue _ => Event.line_bandLeftOut issue

theorem isWarningLine_map {events : List Event} {l : Level} (h : ∀ e ∈ events, e.level = l) :
    ∀ line ∈ events.map Event.line, isWarningLine line = (l == .warning) := by
  intro line hline
  obtain ⟨e,he,rfl⟩ := List.mem_map.mp hline
  rw [Event.isWarningLine_line, h e he]

theorem isEndLine_of_never {events : List Event} (h : ∀ band, .walkEnded band ∉ events) :
    ∀ line ∈ events.map Event.line, isEndLine line = false := by
  intro line hline
  obtain ⟨e,he,rfl⟩ := List.mem_map.mp hline
  rw [Event.isEndLine_line]
  cases e with
  | walkEnded band => exact absurd he (h band)
  | _ => rfl

/-- The lines end in this one, which is a warning, and there is no other warning among them. -/
def LogsLast (warning : String) (lines : List String) : Prop :=
  ∃ front, lines = front ++ [warning] ∧ isWarningLine warning = true ∧
    ∀ line ∈ front, isWarningLine line = false

theorem EndsInWarning.logsLast {event : Event} {events : List Event}
    (h : EndsInWarning event events) : LogsLast event.line (events.map Event.line) := by
  obtain ⟨front,rfl,hlevel,hdebug⟩ := h
  refine ⟨front.map Event.line,by rw [List.map_append, List.map_singleton],?_,?_⟩
  · rw [Event.isWarningLine_line, hlevel]
    rfl
  · exact isWarningLine_map hdebug

namespace BandStream

/-- The lines about one band: its type byte, then nothing but warnings, and among these the
message of its issue, if there is one. -/
structure GroupLines (band : Nat) (kind : UInt8) (skipped : List BandIssue)
    (group : List String) : Prop where
  opens : group.head? = some (Event.band band (.ofByte kind)).line
  warnings : ∀ line ∈ group.tail, isWarningLine line = true
  issues : group.tail.filter isIssueLine =
    (skipped.filter fun issue => issue.band == band).map fun issue =>
      bandWarning ++ issue.message

theorem Group.lines {band : Nat} {kind : UInt8} {skipped : List BandIssue}
    {group : List Event} (h : Group band kind skipped group) :
    GroupLines band kind skipped (group.map Event.line) where
  opens := by
    rw [List.head?_map, h.opens]
    rfl
  warnings := by
    rw [← List.map_tail]
    exact isWarningLine_map h.warnings
  issues := by
    rw [← List.map_tail, filter_isIssueLine, h.issues, map_line_bandLeftOut]

/-- How the lines of a raster end: as many bands were visited as there should be, or a last
warning says behind which one the walk ended. -/
inductive EndingLines (ends : Bool) (count : Nat) (kinds : List UInt8) (lines : List String) :
    Prop
  | whole (hcount : kinds.length = count)
      (hgoes : ends = true → ∀ kind ∈ kinds, ¬(Descriptor.ofByte kind).Unlocatable)
      (hnever : ∀ line ∈ lines, isEndLine line = false)
  | stopped (earlier : List UInt8) (kind : UInt8) (front : List String) (hends : ends = true)
      (hkinds : kinds = earlier ++ [kind])
      (hearlier : ∀ kind ∈ earlier, ¬(Descriptor.ofByte kind).Unlocatable)
      (hlast : (Descriptor.ofByte kind).Unlocatable) (hcount : kinds.length ≤ count)
      (hlines : lines = front ++ [bandWarning ++
        s!"cannot locate the band after band {earlier.length}, remaining bands left blank"])
      (honce : ∀ line ∈ front, isEndLine line = false)

theorem Ending.lines {ends : Bool} {count : Nat} {kinds : List UInt8} {events : List Event}
    (h : Ending ends 0 count kinds events) :
    EndingLines ends count kinds (events.map Event.line) := by
  cases h with
  | whole hcount hgoes hnever => exact .whole hcount hgoes (isEndLine_of_never hnever)
  | stopped earlier kind front hends hkinds hearlier hlast hcount hevents honce =>
      refine .stopped earlier kind (front.map Event.line) hends hkinds hearlier hlast hcount ?_
        (isEndLine_of_never honce)
      have hline := Event.line_of_bands (e := .walkEnded (0 + earlier.length)) rfl rfl
      rw [hevents, List.map_append, List.map_singleton, hline, Nat.zero_add]
      rfl

end BandStream

namespace Raster
open BandStream
variable {s : Settings} {data : List UInt8} {h : Header} {passing : Bool}

/-- The lines of a raster that is returned: those of its header and of its extent, then one group
of lines for each band that was visited. -/
structure ToldLines (passing : Bool) (data : List UInt8) (h : Header) (raster : Raster)
    (t : Trace) (kinds : List UInt8) (groups : List (List String)) : Prop where
  lines : t.lines = (h.events raster.extent).map Event.line ++ groups.flatten
  visits : t.Visits data 0 kinds
  count : groups.length = kinds.length
  group : ∀ (band : Nat) (group : List String), groups[band]? = some group →
    ∃ kind, kinds[band]? = some kind ∧ GroupLines band kind raster.skipped group
  warnings : t.lines.filter isIssueLine =
    raster.skipped.map fun issue => bandWarning ++ issue.message
  ending : EndingLines (passing && h.numBands == 3) h.numBands.toNat kinds t.lines

/-- What is logged, by what the decoding comes to. -/
inductive Logged (s : Settings) (data : List UInt8) (r : Run Raster) : Prop
  | tooLarge {size limit : Nat} (hresult : r.result = .error (.decode (.inputTooLarge size limit)))
      (hlines : r.trace.lines = [])
  | version {version : Int} (hresult : r.result = .error (.decode (.unsupportedVersion version)))
      (hlines : LogsLast s!"WARNING pgraster.codec.header WKB version {version} unsupported"
        r.trace.lines)
  | rotation {x y : Double} (hresult : r.result = .error (.decode (.unsupportedRotation x y)))
      (hlines : LogsLast "WARNING pgraster.codec.header raster rotation is not supported"
        r.trace.lines)
  | bandCount {count : Int} (hresult : r.result = .error (.decode (.unsupportedBandCount count)))
      (hlines : LogsLast
        s!"WARNING pgraster.codec.reader raster with {count} bands is not supported"
        r.trace.lines)
  | underrun (hresult : r.Underran) (hnever : ∀ line ∈ r.trace.lines, isEndLine line = false)
  | returned {raster : Raster} {kinds : List UInt8} {groups : List (List String)}
      (hresult : r.result = .ok raster)
      (htold : ToldLines s.skipUnsupportedPayload data (Header.ofBytes data) raster r.trace kinds
        groups)

theorem Told.lines {raster : Raster} {t : Trace} {kinds : List UInt8}
    {groups : List (List Event)} (htold : Told passing data h raster t kinds groups) :
    ToldLines passing data h raster t kinds (groups.map fun group => group.map Event.line) where
  lines := by
    rw [Trace.lines, htold.events, List.map_append, List.map_flatten]
  visits := htold.visits
  count := by rw [List.length_map, htold.count]
  group := by
    intro band group hgroup
    rw [List.getElem?_map, Option.map_eq_some_iff] at hgroup
    obtain ⟨events,hevents,rfl⟩ := hgroup
    obtain ⟨kind,hkind,hg⟩ := htold.group band events hevents
    exact ⟨kind,hkind,hg.lines⟩
  warnings := by
    rw [Trace.lines, filter_isIssueLine, htold.warnings, map_line_bandLeftOut]
  ending := htold.ending.lines

theorem Diagnosed.logged {r : Run Raster} (hr : Diagnosed s data r) : Logged s data r := by
  cases hr with
  | tooLarge hresult hevents => exact .tooLarge hresult (by rw [Trace.lines, hevents, List.map_nil])
  | version hresult hevents => exact .version hresult hevents.logsLast
  | rotation hresult hevents => exact .rotation hresult hevents.logsLast
  | bandCount hresult hevents => exact .bandCount hresult hevents.logsLast
  | underrun hresult hnever => exact .underrun hresult (isEndLine_of_never hnever)
  | returned hresult htold => exact .returned hresult htold.lines

/-- The log lines of a decoding agree with what it comes to, for all settings and buffers. -/
theorem decode_logged (s : Settings) (data : List UInt8) : Logged s data (decode s data) := by
  rcases Nat.lt_or_ge s.maxInputBytes data.length with hlarge | hsize
  · rw [decode_tooLarge hlarge]
    exact .tooLarge rfl rfl
  · exact (diagnosed_of_le hsize).logged

end Raster
end RasterWkb
