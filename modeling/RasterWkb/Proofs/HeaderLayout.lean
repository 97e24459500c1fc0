import RasterWkb.Header.Wire
import RasterWkb.Proofs.FieldRuns

/-!
# Where the header's fields are

Every field of a header has a fixed place among the first 61 bytes of its
stream. The reader, which goes through the fields one by one and may give up on
the way, is compared with that table: its run from any cursor whose order is
open is known in each of the six cases that it can end in. Which bytes follow
the header plays no part.
-/
namespace RasterWkb

namespace Header

/-- The order that the first byte of a stream stands for. -/
def orderAt (bytes : List UInt8) : ByteOrder :=
  orderOf (bytes.headD 0)

/-- The pattern of the field at an offset of a stream. -/
def fieldAt (bytes : List UInt8) (offset width : Nat) : Nat :=
  (orderAt bytes).decode ((bytes.drop offset).take width)

/-- The header that the first bytes of a stream spell, acceptable or not. -/
def ofBytes (bytes : List UInt8) : Header where
  version := fieldAt bytes 1 2
  numBands := fieldAt bytes 3 2
  scaleX := .ofPattern (fieldAt bytes 5 8)
  scaleY := .ofPattern (fieldAt bytes 13 8)
  originX := .ofPattern (fieldAt bytes 21 8)
  originY := .ofPattern (fieldAt bytes 29 8)
  skewX := .ofPattern (fieldAt bytes 37 8)
  skewY := .ofPattern (fieldAt bytes 45 8)
  srid := Word.signed32 (fieldAt bytes 53 4)
  width := fieldAt bytes 57 2
  height := fieldAt bytes 59 2
  order := orderAt bytes

/-- Neither rotation term is anything but a zero of either sign. -/
def Unrotated (h : Header) : Prop :=
  h.skewX.isZero = true ∧ h.skewY.isZero = true

instance (h : Header) : Decidable h.Unrotated :=
  inferInstanceAs (Decidable (_ ∧ _))

/-- The stream opens with a header that the reader accepts. -/
structure Accepted (bytes : List UInt8) : Prop where
  long : byteSize ≤ bytes.length
  version : (ofBytes bytes).version = 0
  unrotated : (ofBytes bytes).Unrotated

theorem fieldAt_lt (bytes : List UInt8) (offset width : Nat) :
    fieldAt bytes offset width < 256 ^ width := by
  have h := (orderAt bytes).decode_lt ((bytes.drop offset).take width)
  have hl : ((bytes.drop offset).take width).length ≤ width := by
    rw [List.length_take]
    exact Nat.min_le_left _ _
  exact Nat.lt_of_lt_of_le h (Nat.pow_le_pow_right (by decide) hl)

section Sizes
variable (bytes : List UInt8)

theorem ofBytes_width_fits : FitsUInt16 (ofBytes bytes).width := by
  have h := fieldAt_lt bytes 57 2
  simp only [ofBytes, FitsUInt16]
  omega

theorem ofBytes_height_fits : FitsUInt16 (ofBytes bytes).height := by
  have h := fieldAt_lt bytes 59 2
  simp only [ofBytes, FitsUInt16]
  omega

theorem ofBytes_numBands_fits : FitsUInt16 (ofBytes bytes).numBands := by
  have h := fieldAt_lt bytes 3 2
  simp only [ofBytes, FitsUInt16]
  omega

theorem ofBytes_srid_fits : FitsInt32 (ofBytes bytes).srid := by
  have h := fieldAt_lt bytes 53 4
  simp only [ofBytes, FitsInt32, Word.signed32]
  split <;> omega

/-- Any header that opens a stream with a version that fits can be written. -/
theorem fits_ofBytes (hversion : (ofBytes bytes).version = 0) : (ofBytes bytes).Fits :=
  ⟨by rw [hversion]; decide,ofBytes_numBands_fits bytes,ofBytes_srid_fits bytes,
    ofBytes_width_fits bytes,ofBytes_height_fits bytes⟩

end Sizes

/-! ### The reader in stages -/

/-- The order and the version. -/
def readOpening : Reading (ByteOrder × Nat) := do
  let mark ← Reading.uint8 .field
  Reading.fixOrder (orderOf mark)
  let version ← Reading.uint16
  pure (orderOf mark, version)

/-- The fields from the band count to the skews. -/
def readPlacement (version : Int) (order : ByteOrder) : Reading Header := do
  let numBands ← Reading.uint16
  let scaleX ← Reading.float64
  let scaleY ← Reading.float64
  let originX ← Reading.float64
  let originY ← Reading.float64
  let skewX ← Reading.float64
  let skewY ← Reading.float64
  pure
    { version, numBands, scaleX, scaleY, originX, originY, skewX, skewY, srid := 0, width := 0,
      height := 0, order }

/-- The fields behind the skews. -/
def readSize (h : Header) : Reading Header := do
  let srid ← Reading.int32
  let width ← Reading.uint16
  let height ← Reading.uint16
  pure { h with srid, width, height }

/-- All that is read behind an accepted version. -/
def readRest (version : Int) (order : ByteOrder) : Reading Header := do
  let placed ← readPlacement version order
  Reading.require (placed.skewX.isZero && placed.skewY.isZero) .rotationRejected
    (.decode (.unsupportedRotation placed.skewX placed.skewY))
  let header ← readSize placed
  describe header
  pure header

theorem parse_eq_stages : parse = (do
    let opening ← readOpening
    Reading.require (opening.2 == 0) (.versionRejected opening.2)
      (.decode (.unsupportedVersion opening.2))
    readRest opening.2 opening.1) := by
  simp only [parse, readRest, readOpening, readPlacement, readSize, bind_assoc, pure_bind]

end Header

/-- The cursor behind so many bytes of a stream, whose order is fixed by the first. -/
def Cursor.opened (c : Cursor) (n : Nat) : Cursor :=
  { c.advance n with order := some (Header.orderAt c.rest) }

namespace Header

variable {c : Cursor}

/-- The fields from the band count to the skews, in the bytes behind the version. -/
def placementIn (version : Int) (o : ByteOrder) (bytes : List UInt8) : Header where
  version := version
  numBands := o.decode (bytes.take 2)
  scaleX := .ofPattern (o.decode ((bytes.drop 2).take 8))
  scaleY := .ofPattern (o.decode ((bytes.drop 10).take 8))
  originX := .ofPattern (o.decode ((bytes.drop 18).take 8))
  originY := .ofPattern (o.decode ((bytes.drop 26).take 8))
  skewX := .ofPattern (o.decode ((bytes.drop 34).take 8))
  skewY := .ofPattern (o.decode ((bytes.drop 42).take 8))
  srid := 0
  width := 0
  height := 0
  order := o

/-- The remaining fields, in the bytes behind the skews. -/
def sizeIn (h : Header) (o : ByteOrder) (bytes : List UInt8) : Header :=
  { h with
    srid := Word.signed32 (o.decode (bytes.take 4))
    width := o.decode ((bytes.drop 4).take 2)
    height := o.decode ((bytes.drop 6).take 2) }

theorem readsFields_placement (version : Int) (o : ByteOrder) :
    Reading.ReadsFields o [2,8,8,8,8,8,8] (placementIn version o) (readPlacement version o) := by
  have h := Reading.ReadsFields.uint16 (o := o) |>.bind fun numBands =>
    Reading.ReadsFields.float64.bind fun scaleX =>
    Reading.ReadsFields.float64.bind fun scaleY =>
    Reading.ReadsFields.float64.bind fun originX =>
    Reading.ReadsFields.float64.bind fun originY =>
    Reading.ReadsFields.float64.bind fun skewX =>
    Reading.ReadsFields.float64.bind fun skewY =>
    Reading.ReadsFields.pure (o := o) (Header.mk version numBands scaleX scaleY originX originY
      skewX skewY 0 0 0 o)
  simp only [List.drop_drop] at h
  exact h

theorem readsFields_size (h : Header) (o : ByteOrder) :
    Reading.ReadsFields o [4,2,2] (sizeIn h o) (readSize h) := by
  have hr := Reading.ReadsFields.int32 (o := o) |>.bind fun srid =>
    Reading.ReadsFields.uint16.bind fun width =>
    Reading.ReadsFields.uint16.bind fun height =>
    Reading.ReadsFields.pure (o := o) ({ h with srid, width, height } : Header)
  simp only [List.drop_drop] at hr
  exact hr

theorem sizeIn_placementIn (bytes : List UInt8) :
    sizeIn (placementIn (ofBytes bytes).version (orderAt bytes) (bytes.drop 3)) (orderAt bytes)
      ((bytes.drop 3).drop 50) = ofBytes bytes := by
  simp only [sizeIn, placementIn, List.drop_drop]
  rfl

theorem placementIn_skews (bytes : List UInt8) (version : Int) :
    (placementIn version (orderAt bytes) (bytes.drop 3)).skewX = (ofBytes bytes).skewX ∧
      (placementIn version (orderAt bytes) (bytes.drop 3)).skewY = (ofBytes bytes).skewY := by
  simp only [placementIn, List.drop_drop]
  exact ⟨rfl,rfl⟩

end Header

namespace Cursor
variable (c : Cursor) (m n : Nat)

@[simp] theorem opened_offset : (c.opened n).offset = c.offset + n := rfl
@[simp] theorem opened_rest : (c.opened n).rest = c.rest.drop n := rfl
@[simp] theorem opened_order : (c.opened n).order = some (Header.orderAt c.rest) := rfl

@[simp] theorem opened_advance : (c.opened m).advance n = c.opened (m + n) := by
  simp only [opened, advance, List.drop_drop, Nat.add_assoc]

@[simp] theorem opened_remaining : (c.opened n).remaining = c.remaining - n := by
  simp only [remaining, opened_rest, List.length_drop]

end Cursor

namespace Header
variable {c : Cursor}

theorem require_of_true {event : Event} {fault : Fault} {b : Bool} (hb : b = true) :
    Reading.require b event fault = pure () := by
  rw [hb]
  rfl

theorem run_require_of_false {event : Event} {fault : Fault} {b : Bool} (hb : b = false) :
    (Reading.require b event fault).run c = ⟨.error fault, c, [.reported event]⟩ := by
  rw [hb]
  rfl

/-- The lines about a header. -/
def lines (h : Header) : Trace :=
  [.reported (.format h.version h.numBands), .reported (.scale h.scaleX h.scaleY),
    .reported (.origin h.originX h.originY), .reported (.skew h.skewX h.skewY),
    .reported (.size h.srid h.width h.height)]

theorem run_describe (h : Header) : (describe h).run c = ⟨.ok (), c, h.lines⟩ := rfl

theorem run_fixOrder (hopen : c.order = none) {b : UInt8} {bs : List UInt8}
    (hrest : c.rest = b :: bs) :
    (Reading.fixOrder (orderOf b)).run (c.advance 1) = ⟨.ok (), c.opened 1, []⟩ := by
  have horder : orderAt c.rest = orderOf b := by rw [hrest]; rfl
  simp only [Reading.run, Reading.fixOrder, Cursor.fixOrder, Cursor.order_advance, hopen,
    Cursor.opened, horder]

theorem run_readOpening (hopen : c.order = none) (hlen : 3 ≤ c.remaining) :
    readOpening.run c = ⟨.ok (orderAt c.rest, fieldAt c.rest 1 2), c.opened 3,
      Reading.fieldMarks c.offset [1,2]⟩ := by
  obtain ⟨b,bs,hrest⟩ : ∃ b bs, c.rest = b :: bs := by
    cases h : c.rest with
    | nil => simp [Cursor.remaining, h] at hlen
    | cons b bs => exact ⟨b,bs,rfl⟩
  have horder : orderOf b = orderAt c.rest := by rw [hrest]; rfl
  have hmark : (Reading.uint8 .field).run c = _ := Reading.run_uint8_cons hrest
  have hfix := run_fixOrder hopen hrest
  have hver := (Reading.ReadsFields.uint16 (o := orderAt c.rest)).enough (c.opened 1) rfl (by
    simp only [Cursor.opened_remaining, List.sum_cons, List.sum_nil]
    omega)
  rw [readOpening, Reading.run_bind_of_ok (by rw [hmark]), hmark,
    Reading.run_bind_of_ok (by rw [hfix]), hfix, Reading.run_bind_of_ok (by rw [hver]), hver,
    horder, Cursor.opened_advance]
  rfl

theorem readOpening_short (hopen : c.order = none) (hlen : c.remaining < 3) :
    (readOpening.run c).Underran := by
  cases hrest : c.rest with
  | nil => exact (Reading.uint8_underran hrest).bind _
  | cons b bs =>
      have hmark : (Reading.uint8 .field).run c = _ := Reading.run_uint8_cons hrest
      have hfix := run_fixOrder hopen hrest
      have hver : (Reading.uint16.run (c.opened 1)).Underran := by
        apply Reading.ReadsFields.uint16.underran (Cursor.opened_order c 1)
        simp only [Cursor.opened_remaining, List.sum_cons, List.sum_nil]
        omega
      rw [readOpening, Reading.run_bind_of_ok (by rw [hmark]), hmark,
        Reading.run_bind_of_ok (by rw [hfix]), hfix]
      exact hver.bind _

/-! ### The six ends of the reader -/

theorem parse_short (hopen : c.order = none) (hlen : c.remaining < 3) :
    (parse.run c).Underran := by
  rw [parse_eq_stages]
  exact (readOpening_short hopen hlen).bind _

theorem parse_version (hopen : c.order = none) (hlen : 3 ≤ c.remaining)
    (hv : (ofBytes c.rest).version ≠ 0) :
    parse.run c =
      ⟨.error (.decode (.unsupportedVersion (ofBytes c.rest).version)), c.opened 3,
        Reading.fieldMarks c.offset [1,2] ++
          [.reported (.versionRejected (ofBytes c.rest).version)]⟩ := by
  have hfirst := run_readOpening hopen hlen
  have hne : (fieldAt c.rest 1 2 == 0) = false := by
    apply beq_false_of_ne
    intro h
    exact hv (congrArg Int.ofNat h)
  rw [parse_eq_stages, Reading.run_bind_of_ok (by rw [hfirst]), hfirst,
    Reading.run_bind_of_error (by rw [run_require_of_false hne]), run_require_of_false hne]
  rfl

/-- Behind an accepted version the rest of the header is read. -/
theorem parse_of_version (hopen : c.order = none) (hlen : 3 ≤ c.remaining)
    (hv : (ofBytes c.rest).version = 0) :
    parse.run c =
      let rest := (readRest (ofBytes c.rest).version (orderAt c.rest)).run (c.opened 3)
      ⟨rest.result, rest.cursor, Reading.fieldMarks c.offset [1,2] ++ rest.trace⟩ := by
  have hfirst := run_readOpening hopen hlen
  have hz : (fieldAt c.rest 1 2 == 0) = true := beq_of_eq (Int.ofNat_eq_zero.mp hv)
  rw [parse_eq_stages, Reading.run_bind_of_ok (by rw [hfirst]), hfirst, require_of_true hz,
    pure_bind]
  rfl

theorem parse_short_skew (hopen : c.order = none) (hv : (ofBytes c.rest).version = 0)
    (hlow : 3 ≤ c.remaining) (hlen : c.remaining < 53) : (parse.run c).Underran := by
  rw [parse_of_version hopen hlow hv]
  have hplace := (readsFields_placement (ofBytes c.rest).version (orderAt c.rest)).underran
    (c := c.opened 3) rfl (by
      simp only [Cursor.opened_remaining, List.sum_cons, List.sum_nil]
      omega)
  exact hplace.bind _

/-- What is read up to the skews of an unversioned header. -/
theorem run_readPlacement (hlen : 53 ≤ c.remaining) (version : Int) :
    (readPlacement version (orderAt c.rest)).run (c.opened 3) =
      ⟨.ok (placementIn version (orderAt c.rest) (c.rest.drop 3)), c.opened 53,
        Reading.fieldMarks (c.offset + 3) [2,8,8,8,8,8,8]⟩ := by
  rw [(readsFields_placement version (orderAt c.rest)).enough (c.opened 3) rfl (by
    simp only [Cursor.opened_remaining, List.sum_cons, List.sum_nil]
    omega), Cursor.opened_advance]
  rfl

theorem parse_rotation (hopen : c.order = none) (hv : (ofBytes c.rest).version = 0)
    (hlen : 53 ≤ c.remaining) (hrot : ¬(ofBytes c.rest).Unrotated) :
    parse.run c =
      ⟨.error (.decode (.unsupportedRotation (ofBytes c.rest).skewX (ofBytes c.rest).skewY)),
        c.opened 53, Reading.fieldMarks c.offset [1,2,2,8,8,8,8,8,8] ++
          [.reported .rotationRejected]⟩ := by
  have hplace := run_readPlacement hlen (ofBytes c.rest).version
  obtain ⟨hx,hy⟩ := placementIn_skews c.rest (ofBytes c.rest).version
  have hcheck : ((ofBytes c.rest).skewX.isZero && (ofBytes c.rest).skewY.isZero) = false := by
    rw [← Bool.not_eq_true, Bool.and_eq_true]
    exact hrot
  rw [parse_of_version hopen (by omega) hv, readRest, Reading.run_bind_of_ok (by rw [hplace]),
    hplace, hx, hy,
    Reading.run_bind_of_error (by rw [run_require_of_false hcheck]), run_require_of_false hcheck]
  rfl

/-- Behind accepted skews the size is read. -/
theorem parse_of_unrotated (hopen : c.order = none) (hv : (ofBytes c.rest).version = 0)
    (hlen : 53 ≤ c.remaining) (hrot : (ofBytes c.rest).Unrotated) :
    parse.run c =
      let rest := (do
        let header ← readSize
          (placementIn (ofBytes c.rest).version (orderAt c.rest) (c.rest.drop 3))
        describe header
        pure header : Reading Header).run (c.opened 53)
      ⟨rest.result, rest.cursor,
        Reading.fieldMarks c.offset [1,2,2,8,8,8,8,8,8] ++ rest.trace⟩ := by
  have hplace := run_readPlacement hlen (ofBytes c.rest).version
  obtain ⟨hx,hy⟩ := placementIn_skews c.rest (ofBytes c.rest).version
  have hcheck : ((ofBytes c.rest).skewX.isZero && (ofBytes c.rest).skewY.isZero) = true := by
    simpa only [Unrotated, Bool.and_eq_true] using hrot
  rw [parse_of_version hopen (by omega) hv, readRest, Reading.run_bind_of_ok (by rw [hplace]),
    hplace, hx, hy, require_of_true hcheck, pure_bind]
  rfl

theorem parse_short_size (hopen : c.order = none) (hv : (ofBytes c.rest).version = 0)
    (hrot : (ofBytes c.rest).Unrotated) (hlow : 53 ≤ c.remaining) (hlen : c.remaining < 61) :
    (parse.run c).Underran := by
  rw [parse_of_unrotated hopen hv hlow hrot]
  have hsize := (readsFields_size (placementIn (ofBytes c.rest).version (orderAt c.rest)
    (c.rest.drop 3)) (orderAt c.rest)).underran (c := c.opened 53) rfl (by
      simp only [Cursor.opened_remaining, List.sum_cons, List.sum_nil]
      omega)
  exact hsize.bind _

/-- An accepted header is read as the table says, and 61 bytes are consumed. -/
theorem parse_accepted (hopen : c.order = none) (ha : Accepted c.rest) :
    parse.run c = ⟨.ok (ofBytes c.rest), c.opened byteSize,
      Reading.fieldMarks c.offset [1,2,2,8,8,8,8,8,8,4,2,2] ++ (ofBytes c.rest).lines⟩ := by
  have hlen : 61 ≤ c.remaining := ha.long
  have hsize := (readsFields_size (placementIn (ofBytes c.rest).version (orderAt c.rest)
    (c.rest.drop 3)) (orderAt c.rest)).enough (c.opened 53) rfl (by
      simp only [Cursor.opened_remaining, List.sum_cons, List.sum_nil]
      omega)
  have hall : sizeIn (placementIn (ofBytes c.rest).version (orderAt c.rest) (c.rest.drop 3))
      (orderAt c.rest) (c.opened 53).rest = ofBytes c.rest := by
    rw [← sizeIn_placementIn c.rest, List.drop_drop]
    rfl
  rw [hall, Cursor.opened_advance] at hsize
  rw [parse_of_unrotated hopen ha.version (by omega) ha.unrotated,
    Reading.run_bind_of_ok (by rw [hsize]), hsize, Reading.run_bind_of_ok (by rw [run_describe]),
    run_describe]
  rfl

/-- A header is read from no other streams than accepted ones. -/
theorem accepted_of_parse {h : Header} (hopen : c.order = none)
    (hok : (parse.run c).result = .ok h) : Accepted c.rest := by
  have stopped : ∀ r : Run Header, r.Underran → r.result ≠ .ok h := by
    rintro r ⟨_,-,hr⟩ he
    rw [hr] at he
    cases he
  by_cases h3 : c.remaining < 3
  · exact absurd hok (stopped _ (parse_short hopen h3))
  by_cases hv : (ofBytes c.rest).version = 0
  · by_cases h53 : c.remaining < 53
    · exact absurd hok (stopped _ (parse_short_skew hopen hv (by omega) h53))
    by_cases hrot : (ofBytes c.rest).Unrotated
    · by_cases h61 : c.remaining < 61
      · exact absurd hok (stopped _ (parse_short_size hopen hv hrot (by omega) h61))
      · exact ⟨Nat.not_lt.mp h61,hv,hrot⟩
    · rw [parse_rotation hopen hv (by omega) hrot] at hok
      cases hok
  · rw [parse_version hopen (by omega) hv] at hok
    cases hok

end Header

/-! ### What the reader leaves in its trace -/

namespace Reading
variable {α β : Type} {p : Mark → Prop}

/-- Whatever the input is, the marks in the trace of the reading are of a kind. -/
def Leaves (p : Mark → Prop) (r : Reading α) : Prop :=
  ∀ (c : Cursor), ∀ mark ∈ (r.run c).trace, p mark

namespace Leaves

theorem pure (a : α) : Leaves p (Pure.pure a : Reading α) :=
  fun _ _ h => absurd h List.not_mem_nil

theorem fail (fault : Fault) : Leaves p (fail fault : Reading α) :=
  fun _ _ h => absurd h List.not_mem_nil

theorem report {event : Event} (h : p (.reported event)) : Leaves p (report event) := by
  intro c mark hmark
  rw [List.mem_singleton.mp hmark]
  exact h

theorem fixOrder (o : ByteOrder) : Leaves p (fixOrder o) := by
  intro c mark hmark
  simp only [run, Reading.fixOrder] at hmark
  split at hmark <;> exact absurd hmark List.not_mem_nil

theorem consume {role : Role} (h : ∀ offset size, p (.took role offset size))
    (step : Cursor → Except Fault (α × Cursor)) : Leaves p (consume role step) := by
  intro c mark hmark
  simp only [run, Reading.consume] at hmark
  split at hmark
  · rw [List.mem_singleton.mp hmark]
    exact h _ _
  · exact absurd hmark List.not_mem_nil

theorem bind {r : Reading α} {next : α → Reading β} (hr : Leaves p r)
    (hn : ∀ a, Leaves p (next a)) : Leaves p (r >>= next) := by
  intro c mark hmark
  cases hresult : (r.run c).result with
  | error fault =>
      rw [run_bind_of_error hresult] at hmark
      exact hr c mark hmark
  | ok a =>
      rw [run_bind_of_ok hresult] at hmark
      rcases List.mem_append.mp hmark with hmark | hmark
      · exact hr c mark hmark
      · exact hn a _ mark hmark

theorem require (b : Bool) {event : Event} (h : p (.reported event)) (fault : Fault) :
    Leaves p (require b event fault) := by
  unfold Reading.require
  split
  · exact .pure ()
  · exact (report h).bind fun _ => .fail fault

end Leaves

end Reading

namespace Header

/-- What reading a header leaves behind: bytes taken for fields, and reports on the header. -/
def IsMark : Mark → Prop
  | .took role _ _ => role = .field
  | .reported event => event.topic = .header
  | .painted _ _ => False

open Reading

theorem leaves_word (w : Word) : Leaves IsMark (word w) :=
  .consume (fun _ _ => rfl) _

theorem leaves_float64 : Leaves IsMark float64 :=
  (leaves_word .float64).bind fun _ => .pure _

theorem leaves_describe (h : Header) : Leaves IsMark (describe h) :=
  have line (event : Event) (hevent : event.topic = .header) : Leaves IsMark (report event) :=
    .report hevent
  (line (.format ..) rfl).bind fun _ => (line (.scale ..) rfl).bind fun _ =>
    (line (.origin ..) rfl).bind fun _ => (line (.skew ..) rfl).bind fun _ =>
    line (.size ..) rfl

theorem leaves_parse : Leaves IsMark parse :=
  have check (b : Bool) (event : Event) (fault : Fault) (hevent : event.topic = .header) :
      Leaves IsMark (require b event fault) := .require b hevent fault
  (Leaves.consume (fun _ _ => rfl) _).bind fun _ => (Leaves.fixOrder _).bind fun _ =>
    (leaves_word .uint16).bind fun _ => (check _ (.versionRejected _) _ rfl).bind fun _ =>
    (leaves_word .uint16).bind fun _ => leaves_float64.bind fun _ => leaves_float64.bind fun _ =>
    leaves_float64.bind fun _ => leaves_float64.bind fun _ => leaves_float64.bind fun _ =>
    leaves_float64.bind fun _ => (check _ .rotationRejected _ rfl).bind fun _ =>
    ((leaves_word .int32).bind fun _ => .pure _).bind fun _ =>
    (leaves_word .uint16).bind fun _ => (leaves_word .uint16).bind fun _ =>
    (leaves_describe _).bind fun _ => .pure _

/-- Every report of the reader is on the header. -/
theorem topic_of_mem_parse {c : Cursor} {event : Event}
    (h : event ∈ (parse.run c).trace.events) : event.topic = .header := by
  obtain ⟨mark,hmark,hevent⟩ := List.mem_filterMap.mp h
  have hleft := leaves_parse c mark hmark
  cases mark with
  | took | painted => cases hevent
  | reported other =>
      obtain rfl := Option.some.inj hevent
      exact hleft

end Header

end RasterWkb
