import RasterWkb.Raster
import RasterWkb.Proofs.BandWalk
import RasterWkb.Proofs.GrayBand
import RasterWkb.Proofs.HeaderLayout

/-!
# Decoding behind the header

A buffer that is small enough and opens with an accepted header is decoded by
reading its bands from offset 61 on and painting them on a blank image. What the
bands come to is all that is left to say about such a buffer.
-/
namespace RasterWkb

/-- The extent of a header whose sizes can be doubles. -/
def Header.box (h : Header) : Extent :=
  ⟨h.originX, h.originY, h.originX + Double.ofInt h.width * h.scaleX,
    h.originY + Double.ofInt h.height * h.scaleY⟩

theorem Header.extent_of_fits {h : Header} (hw : FitsUInt16 h.width)
    (hh : FitsUInt16 h.height) : h.extent = .ok h.box := by
  have hwd : Double.ofInt? h.width = some (Double.ofInt h.width) :=
    Double.ofInt?_of_natAbs_lt (by omega)
  have hhd : Double.ofInt? h.height = some (Double.ofInt h.height) :=
    Double.ofInt?_of_natAbs_lt (by omega)
  simp only [Header.extent, Header.far, hwd, hhd]
  rfl

/-- The area of a header with sizes of its own fields is a moderate number. -/
theorem Header.area_of_fits {h : Header} (hw : FitsUInt16 h.width) (hh : FitsUInt16 h.height) :
    ∃ area : Nat, h.HasArea area ∧ area < 2 ^ (60 : Nat) := by
  obtain ⟨w,hwn⟩ : ∃ w : Nat, h.width = w := ⟨h.width.toNat,by omega⟩
  obtain ⟨k,hkn⟩ : ∃ k : Nat, h.height = k := ⟨h.height.toNat,by omega⟩
  refine ⟨w * k,⟨hw.1,hh.1,by rw [Header.area, hwn, hkn, Int.natCast_mul]⟩,?_⟩
  have hmul : w * k ≤ 65535 * 65535 := Nat.mul_le_mul (by omega) (by omega)
  omega

theorem Header.toNat_area {h : Header} {area : Nat} (harea : h.HasArea area) :
    (h.width * h.height).toNat = area := by
  rw [← Header.area, harea.area_eq, Int.toNat_natCast]

namespace Raster
variable {s : Settings} {data : List UInt8} {passing : Bool} {c : Cursor} {raster : Raster}

/-- A stream that is too large is refused where the cursor stands. -/
theorem run_read_of_lt (hlarge : s.maxInputBytes < c.remaining) :
    (read s).run c =
      ⟨.error (.decode (.inputTooLarge c.remaining s.maxInputBytes)), c, []⟩ := by
  rw [read, Reading.run_bind_of_ok (a := c.remaining) rfl, if_pos hlarge]
  rfl

theorem run_read_of_le (hsize : c.remaining ≤ s.maxInputBytes) :
    (read s).run c = (readBody s.skipUnsupportedPayload).run c := by
  rw [read, Reading.run_bind_of_ok (a := c.remaining) rfl, if_neg (Nat.not_lt.mpr hsize)]
  rfl

theorem decode_tooLarge (hsize : s.maxInputBytes < data.length) :
    decode s data = ⟨.error (.decode (.inputTooLarge data.length s.maxInputBytes)),
      Cursor.start data none, []⟩ :=
  run_read_of_lt (c := .start data none) hsize

theorem decode_of_le (hsize : data.length ≤ s.maxInputBytes) :
    decode s data = (readBody s.skipUnsupportedPayload).run (Cursor.start data none) :=
  run_read_of_le (c := .start data none) hsize

theorem run_readBody_of_error {fault : Fault} (hp : (Header.parse.run c).result = .error fault) :
    (readBody passing).run c =
      ⟨.error fault, (Header.parse.run c).cursor, (Header.parse.run c).trace⟩ := by
  rw [readBody, Reading.run_bind_of_error hp]

/-- The raster of a header, after painting and with the issues of the bands. -/
def assemble (h : Header) (painting : Trace) (skipped : List BandIssue) : Raster where
  extent := h.box
  width := h.width
  height := h.height
  image := painting.paintOn (Image.blank h.area.toNat)
  srid := h.srid
  skipped := skipped

/-- The run of a decoding whose header has been read. -/
def finish (h : Header) (front : Trace) (bands : Run (List BandIssue)) : Run Raster :=
  ⟨bands.result.map (assemble h bands.trace), bands.cursor, front ++ bands.trace⟩

theorem ok_of_finish {h : Header} {front : Trace} {bands : Run (List BandIssue)}
    (hok : (finish h front bands).result = .ok raster) :
    ∃ issues, bands.result = .ok issues ∧ raster = assemble h bands.trace issues := by
  obtain ⟨result,cursor,trace⟩ := bands
  cases result with
  | error fault => cases hok
  | ok issues =>
      cases hok
      exact ⟨issues,rfl,rfl⟩

/-- What an accepted header leaves in the trace. -/
def headerTrace (offset : Nat) (h : Header) : Trace :=
  Reading.fieldMarks offset [1,2,2,8,8,8,8,8,8,4,2,2] ++ (h.lines ++ [.reported (.extent h.box)])

theorem run_readBody (hopen : c.order = none) (ha : Header.Accepted c.rest) :
    (readBody passing).run c =
      finish (Header.ofBytes c.rest) (headerTrace c.offset (Header.ofBytes c.rest))
        ((readBands (Header.ofBytes c.rest) passing).run (c.opened 61)) := by
  have hparse := Header.parse_accepted hopen ha
  have hextent : (Reading.ofExcept (Header.ofBytes c.rest).extent).run (c.opened 61) =
      ⟨.ok (Header.ofBytes c.rest).box, c.opened 61, []⟩ := by
    rw [Header.extent_of_fits (Header.ofBytes_width_fits c.rest)
      (Header.ofBytes_height_fits c.rest)]
    rfl
  rw [readBody, Reading.run_bind_of_ok (by rw [hparse]), hparse]
  simp only [Header.byteSize]
  rw [Reading.run_bind_of_ok (by rw [hextent]), hextent,
    Reading.run_bind_of_ok (by rw [Reading.run_report]), Reading.run_report]
  simp only [Reading.run_bind_pure, Reading.run_traced, finish, headerTrace, List.append_assoc,
    List.nil_append]
  cases ((readBands (Header.ofBytes c.rest) passing).run (c.opened 61)).result <;> rfl

/-- A small buffer with an accepted header is decoded by reading its bands. -/
theorem decode_accepted (hsize : data.length ≤ s.maxInputBytes) (ha : Header.Accepted data) :
    decode s data =
      finish (Header.ofBytes data) (headerTrace 0 (Header.ofBytes data))
        ((readBands (Header.ofBytes data) s.skipUnsupportedPayload).run
          ((Cursor.start data none).opened 61)) := by
  rw [decode_of_le hsize]
  exact run_readBody rfl ha

theorem decode_band_count (hsize : data.length ≤ s.maxInputBytes) (ha : Header.Accepted data)
    (h1 : (Header.ofBytes data).numBands ≠ 1) (h3 : (Header.ofBytes data).numBands ≠ 3) :
    (decode s data).result =
        .error (.decode (.unsupportedBandCount (Header.ofBytes data).numBands)) ∧
      (decode s data).cursor.offset = 61 := by
  rw [decode_accepted hsize ha, readBands, if_neg h1, if_neg h3]
  exact ⟨rfl,rfl⟩

/-- Only accepted buffers that are small enough give a raster. -/
theorem accepted_of_decode (hok : (decode s data).result = .ok raster) :
    data.length ≤ s.maxInputBytes ∧ Header.Accepted data := by
  have hsize : data.length ≤ s.maxInputBytes := by
    refine Nat.le_of_not_lt fun hlarge => ?_
    rw [decode_tooLarge hlarge] at hok
    cases hok
  constructor
  · exact hsize
  · rw [decode_of_le hsize] at hok
    cases hparse : (Header.parse.run (Cursor.start data none)).result with
    | error fault =>
        rw [run_readBody_of_error hparse] at hok
        cases hok
    | ok h => exact Header.accepted_of_parse (c := Cursor.start data none) rfl hparse

/-- A header that is read is the one at the front of an accepted buffer. -/
theorem accepted_of_parse {h : Header}
    (hparse : (Header.parse.run (Cursor.start data none)).result = .ok h) :
    Header.Accepted data ∧ h = Header.ofBytes data := by
  have ha : Header.Accepted data :=
    Header.accepted_of_parse (c := Cursor.start data none) rfl hparse
  have hparsed : Header.parse.run (Cursor.start data none) = _ := Header.parse_accepted rfl ha
  rw [hparsed] at hparse
  injection hparse with hparse
  exact ⟨ha,hparse.symm⟩

theorem numBands_of_decode (hok : (decode s data).result = .ok raster) :
    (Header.ofBytes data).numBands = 1 ∨ (Header.ofBytes data).numBands = 3 := by
  obtain ⟨hsize,ha⟩ := accepted_of_decode hok
  by_cases h1 : (Header.ofBytes data).numBands = 1
  · exact .inl h1
  · by_cases h3 : (Header.ofBytes data).numBands = 3
    · exact .inr h3
    · rw [(decode_band_count hsize ha h1 h3).1] at hok
      cases hok

theorem decode_ok_of_readBands {issues : List BandIssue} (hsize : data.length ≤ s.maxInputBytes)
    (ha : Header.Accepted data)
    (hok : ((readBands (Header.ofBytes data) s.skipUnsupportedPayload).run
      ((Cursor.start data none).opened 61)).result = .ok issues) :
    (decode s data).result = .ok (assemble (Header.ofBytes data)
      ((readBands (Header.ofBytes data) s.skipUnsupportedPayload).run
        ((Cursor.start data none).opened 61)).trace issues) := by
  rw [decode_accepted hsize ha]
  simp only [finish, hok, Except.map]

/-- The run returns a raster with the fields of the header, the image and the issues, and
stops at the offset, in front of the tail. -/
structure Returns (h : Header) (image : Image) (skipped : List BandIssue) (offset : Nat)
    (tail : List UInt8) (r : Run Raster) : Prop where
  result : ∃ extent, h.extent = .ok extent ∧
    r.result = .ok ⟨extent, h.width, h.height, image, h.srid, skipped⟩
  offset : r.cursor.offset = offset
  rest : r.cursor.rest = tail

theorem returns_of_readBands {area n : Nat} {image : Image} {skipped : List BandIssue}
    {painting : Trace} (hsize : data.length ≤ s.maxInputBytes) (ha : Header.Accepted data)
    (harea : (Header.ofBytes data).HasArea area) (hpaint : painting.paintOn (.blank area) = image)
    (hrun : (readBands (Header.ofBytes data) s.skipUnsupportedPayload).run
        ((Cursor.start data none).opened 61) =
      ⟨.ok skipped, ((Cursor.start data none).opened 61).advance n, painting⟩) :
    Returns (Header.ofBytes data) image skipped (61 + n) ((data.drop 61).drop n)
      (decode s data) := by
  have hextent := Header.extent_of_fits (Header.ofBytes_width_fits data)
    (Header.ofBytes_height_fits data)
  rw [decode_accepted hsize ha, hrun]
  refine ⟨⟨_,hextent,?_⟩,?_,rfl⟩
  · simp only [finish, Except.map, assemble, harea.area_eq, Int.toNat_natCast, hpaint]
  · simp only [finish, Cursor.offset_advance, Cursor.opened_offset, Cursor.start, Nat.zero_add]

end Raster

end RasterWkb
