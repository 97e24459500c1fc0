import RasterWkb.Raster
import RasterWkb.Proofs.HeaderLayout

/-!
# Readings made of steps

A step asks for a number of bytes that depends on nothing but the byte order,
and makes something of them; or it refuses without looking at the input. A
reading is stepwise if it puts such steps in sequence, with reports and paintings
in between. All it can learn about the input is which bytes its steps passed
over, and that a step found too few of them.

The readings of headers, bands and rasters are stepwise. What holds of every
step and is kept by sequencing therefore holds of them all. One such law is here:
the stretches of a trace tile the input that was consumed.
-/
namespace RasterWkb

/-- The fault tells nothing about a place in the input. -/
def Fault.Placeless (f : Fault) : Prop :=
  ∀ offset requested remaining, f ≠ .decode (.bufferUnderrun offset requested remaining)

theorem Fault.placeless_ofNegative (count : Int) : (ofNegative count).Placeless := by
  intro offset requested remaining he
  unfold ofNegative at he
  generalize IntegerText.isShort count = short at he
  cases short <;> cases he

namespace Cursor
variable {α : Type}

/-- What a step asks for: a number of bytes and what it makes of them, or nothing. -/
def Demand (α : Type) : Type :=
  Option ByteOrder → Except Fault (Nat × (List UInt8 → α))

/-- Takes the bytes that are asked for. -/
def supply (d : Demand α) (c : Cursor) : Except Fault (α × Cursor) :=
  match d c.order with
  | .error fault => .error fault
  | .ok (size, view) =>
    if size ≤ c.remaining then .ok (view (c.rest.take size), c.advance size)
    else .error (.ofUnderrun c.offset size c.remaining)

section Supply
variable {d : Demand α} {c : Cursor} {size : Nat} {view : List UInt8 → α}

theorem supply_of_error {fault : Fault} (hd : d c.order = .error fault) :
    c.supply d = .error fault := by
  simp only [supply, hd]

theorem supply_of_le (hd : d c.order = .ok (size, view)) (h : size ≤ c.remaining) :
    c.supply d = .ok (view (c.rest.take size), c.advance size) := by
  simp only [supply, hd, if_pos h]

theorem supply_of_lt (hd : d c.order = .ok (size, view)) (h : c.remaining < size) :
    c.supply d = .error (.ofUnderrun c.offset size c.remaining) := by
  simp only [supply, hd, if_neg (Nat.not_le.mpr h)]

end Supply

/-- A demand refuses only with faults that tell no place. -/
def Demand.Placeless (d : Demand α) : Prop :=
  ∀ order fault, d order = .error fault → fault.Placeless

namespace Demand

def bytes (count : Int) : Demand (List UInt8) := fun _ =>
  if count < 0 then .error (.ofNegative count) else .ok (count.toNat, id)

def uint8 : Demand UInt8 := fun _ =>
  .ok (1, fun bytes => bytes.headD 0)

def word (w : Word) : Demand Nat
  | none => .error (.orderOpen w)
  | some o => .ok (w.width, o.decode)

theorem placeless_bytes (count : Int) : (bytes count).Placeless := by
  intro order fault h
  unfold bytes at h
  split at h
  · injection h with h
    exact h ▸ Fault.placeless_ofNegative count
  · cases h

theorem placeless_uint8 : uint8.Placeless := by
  intro order fault h
  cases h

theorem placeless_word (w : Word) : (word w).Placeless := by
  intro order fault h
  cases order with
  | none =>
      cases h
      intro _ _ _ he
      cases he
  | some o => cases h

end Demand

theorem take_eq_supply (c : Cursor) (count : Int) : c.take count = c.supply (.bytes count) := by
  by_cases hneg : count < 0
  · have hd : Demand.bytes count c.order = .error (.ofNegative count) := if_pos hneg
    rw [supply_of_error hd, take, if_pos hneg]
  · obtain ⟨n,rfl⟩ := Int.eq_ofNat_of_zero_le (Int.not_lt.mp hneg)
    have hd : Demand.bytes n c.order = .ok (n, id) := if_neg hneg
    rcases Nat.lt_or_ge c.remaining n with hlt | hle
    · rw [supply_of_lt hd hlt, take_of_lt hlt]
    · rw [supply_of_le hd hle, take_of_le hle, id_eq]

theorem uint8_eq_supply (c : Cursor) : c.uint8 = c.supply .uint8 := by
  obtain ⟨offset,rest,order⟩ := c
  cases rest with
  | nil =>
      have hlt : (⟨offset,[],order⟩ : Cursor).remaining < 1 := Nat.zero_lt_one
      rw [supply_of_lt (d := .uint8) rfl hlt]
      exact congrArg Except.error (Fault.ofUnderrun_of_lt (by decide)).symm
  | cons b bs =>
      have hle : 1 ≤ (⟨offset,b :: bs,order⟩ : Cursor).remaining :=
        Nat.succ_le_succ (Nat.zero_le bs.length)
      rw [supply_of_le (d := .uint8) rfl hle]
      rfl

theorem word_eq_supply (c : Cursor) (w : Word) : c.word w = c.supply (.word w) := by
  obtain ⟨offset,rest,order⟩ := c
  cases order with
  | none => rfl
  | some o =>
      rcases Nat.lt_or_ge (⟨offset,rest,some o⟩ : Cursor).remaining w.width with hlt | hle
      · rw [supply_of_lt (d := .word w) rfl hlt, word, take_of_lt hlt]
        rfl
      · rw [supply_of_le (d := .word w) rfl hle, word, take_of_le hle]
        rfl

end Cursor

namespace Reading
variable {α β : Type}

/-- The reading is a sequence of steps, reports and paintings. -/
inductive Stepwise : {α : Type} → Reading α → Prop
  | pure {α : Type} (a : α) : Stepwise (Pure.pure a : Reading α)
  | fail {α : Type} {fault : Fault} (h : fault.Placeless) : Stepwise (fail fault : Reading α)
  | report (event : Event) : Stepwise (report event)
  | paint (channel : Channel) (plane : List UInt8) : Stepwise (paint channel plane)
  | fixOrder (o : ByteOrder) : Stepwise (fixOrder o)
  | supplied {α : Type} (role : Role) {d : Cursor.Demand α} (h : d.Placeless) :
      Stepwise (consume role (Cursor.supply d))
  | bind {α β : Type} {r : Reading α} {next : α → Reading β} (hr : Stepwise r)
      (hn : ∀ a, Stepwise (next a)) : Stepwise (r >>= next)
  | traced {α : Type} {r : Reading α} (hr : Stepwise r) : Stepwise (traced r)

section Runs
variable {c : Cursor}

theorem run_fixOrder_open (o : ByteOrder) (h : c.order = none) :
    (fixOrder o).run c = ⟨.ok (), { c with order := some o }, []⟩ := by
  simp only [run, fixOrder, Cursor.fixOrder, h]

theorem run_fixOrder_fixed (o : ByteOrder) {o' : ByteOrder} (h : c.order = some o') :
    (fixOrder o).run c = ⟨.error .orderFixed, c, []⟩ := by
  simp only [run, fixOrder, Cursor.fixOrder, h]

variable {role : Role} {d : Cursor.Demand α} {size : Nat} {view : List UInt8 → α}

theorem run_supplied_of_error {fault : Fault} (hd : d c.order = .error fault) :
    (consume role (Cursor.supply d)).run c = ⟨.error fault, c, []⟩ := by
  simp only [run, consume, Cursor.supply_of_error hd]

theorem run_supplied_of_le (hd : d c.order = .ok (size, view)) (h : size ≤ c.remaining) :
    (consume role (Cursor.supply d)).run c =
      ⟨.ok (view (c.rest.take size)), c.advance size, [.took role c.offset size]⟩ := by
  simp only [run, consume, Cursor.supply_of_le hd h, Cursor.offset_advance,
    Nat.add_sub_cancel_left]

theorem run_supplied_of_lt (hd : d c.order = .ok (size, view)) (h : c.remaining < size) :
    (consume role (Cursor.supply d)).run c =
      ⟨.error (.ofUnderrun c.offset size c.remaining), c, []⟩ := by
  simp only [run, consume, Cursor.supply_of_lt hd h]

end Runs

namespace Stepwise

theorem bytes (role : Role) (count : Int) : Stepwise (Reading.bytes role count) := by
  have hstep : (fun c : Cursor => c.take count) = Cursor.supply (.bytes count) :=
    funext fun c => c.take_eq_supply count
  rw [Reading.bytes, hstep]
  exact .supplied role (Cursor.Demand.placeless_bytes count)

theorem uint8 (role : Role) : Stepwise (Reading.uint8 role) := by
  have hstep : Cursor.uint8 = Cursor.supply .uint8 := funext Cursor.uint8_eq_supply
  rw [Reading.uint8, hstep]
  exact .supplied role Cursor.Demand.placeless_uint8

theorem word (w : Word) : Stepwise (Reading.word w) := by
  have hstep : (fun c : Cursor => c.word w) = Cursor.supply (.word w) :=
    funext fun c => c.word_eq_supply w
  rw [Reading.word, hstep]
  exact .supplied .field (Cursor.Demand.placeless_word w)

theorem skip (role : Role) (count : Int) : Stepwise (Reading.skip role count) :=
  (bytes role count).bind fun _ => .pure ()

theorem uint16 : Stepwise Reading.uint16 := word .uint16

theorem int32 : Stepwise Reading.int32 := (word .int32).bind fun _ => .pure _

theorem float64 : Stepwise Reading.float64 := (word .float64).bind fun _ => .pure _

theorem ite {p : Prop} [Decidable p] {r s : Reading α} (hr : Stepwise r) (hs : Stepwise s) :
    Stepwise (if p then r else s) := by
  split
  · exact hr
  · exact hs

theorem reportIf (b : Bool) (event : Event) : Stepwise (Reading.reportIf b event) :=
  .ite (.report event) (.pure ())

theorem require (b : Bool) (event : Event) {fault : Fault} (h : fault.Placeless) :
    Stepwise (Reading.require b event fault) :=
  .ite (.pure ()) ((report event).bind fun _ => .fail h)

end Stepwise

end Reading

/-! ### The readings of the decoder -/

theorem Fault.placeless_version (v : Int) : (decode (.unsupportedVersion v)).Placeless :=
  fun _ _ _ h => by cases h

theorem Fault.placeless_rotation (x y : Double) :
    (decode (.unsupportedRotation x y)).Placeless :=
  fun _ _ _ h => by cases h

theorem Fault.placeless_bandCount (n : Int) : (decode (.unsupportedBandCount n)).Placeless :=
  fun _ _ _ h => by cases h

theorem Fault.placeless_noChannel (band : Nat) : (noChannel band).Placeless :=
  fun _ _ _ h => by cases h

theorem Fault.placeless_negativeSize : negativeSize.Placeless :=
  fun _ _ _ h => by cases h

theorem Fault.placeless_sizeTooLarge : sizeTooLarge.Placeless :=
  fun _ _ _ h => by cases h

open Reading

theorem Header.stepwise_describe (h : Header) : Stepwise (describe h) :=
  (Stepwise.report _).bind fun _ => (Stepwise.report _).bind fun _ =>
    (Stepwise.report _).bind fun _ => (Stepwise.report _).bind fun _ => .report _

theorem Header.stepwise_readOpening : Stepwise readOpening :=
  (Stepwise.uint8 _).bind fun _ => (Stepwise.fixOrder _).bind fun _ =>
    Stepwise.uint16.bind fun _ => .pure _

theorem Header.stepwise_readPlacement (version : Int) (o : ByteOrder) :
    Stepwise (readPlacement version o) :=
  Stepwise.uint16.bind fun _ => Stepwise.float64.bind fun _ => Stepwise.float64.bind fun _ =>
    Stepwise.float64.bind fun _ => Stepwise.float64.bind fun _ => Stepwise.float64.bind fun _ =>
    Stepwise.float64.bind fun _ => .pure _

theorem Header.stepwise_readSize (h : Header) : Stepwise (readSize h) :=
  Stepwise.int32.bind fun _ => Stepwise.uint16.bind fun _ => Stepwise.uint16.bind fun _ => .pure _

theorem Header.stepwise_readRest (version : Int) (o : ByteOrder) :
    Stepwise (readRest version o) :=
  (stepwise_readPlacement version o).bind fun _ =>
    (Stepwise.require _ _ (Fault.placeless_rotation _ _)).bind fun _ =>
    (stepwise_readSize _).bind fun _ => (stepwise_describe _).bind fun _ => .pure _

/-- Behind its opening a header is read stepwise. -/
theorem Header.stepwise_behind_opening (opening : ByteOrder × Nat) :
    Stepwise (do
      Reading.require (opening.2 == 0) (.versionRejected opening.2)
        (.decode (.unsupportedVersion opening.2))
      readRest opening.2 opening.1) :=
  (Stepwise.require _ _ (Fault.placeless_version _)).bind fun _ => stepwise_readRest _ _

theorem Header.stepwise_parse : Stepwise parse := by
  rw [parse_eq_stages]
  exact stepwise_readOpening.bind stepwise_behind_opening

theorem Header.placeless_of_extent {h : Header} {fault : Fault} (he : h.extent = .error fault) :
    fault.Placeless := by
  have hfar : ∀ (origin : Double) (size : Int) (scale : Double),
      far origin size scale = .error fault → fault = .sizeTooLarge := by
    intro origin size scale hf
    unfold far at hf
    split at hf <;> cases hf
    rfl
  suffices fault = .sizeTooLarge from this ▸ Fault.placeless_sizeTooLarge
  unfold extent at he
  split at he
  · next hx => exact hfar _ _ _ (by injection he with he; rw [hx, he])
  · split at he
    · next hy => exact hfar _ _ _ (by injection he with he; rw [hy, he])
    · cases he

theorem Header.stepwise_extent (h : Header) : Stepwise (ofExcept h.extent) := by
  cases he : h.extent with
  | error fault => exact .fail (placeless_of_extent he)
  | ok extent => exact .pure extent

namespace BandStream
variable (h : Header) (passing : Bool)

theorem stepwise_descriptor (index : Nat) : Stepwise (descriptor index) :=
  (Stepwise.uint8 _).bind fun _ => (Stepwise.report _).bind fun _ =>
    (Stepwise.uint8 _).bind fun _ => .pure _

theorem stepwise_passTail (index : Nat) (band : Descriptor) (area : Int) :
    Stepwise (passTail index band area) := by
  unfold passTail
  split
  · exact .pure false
  · exact (Stepwise.skip _ _).bind fun _ => .pure true

theorem stepwise_plane (index : Nat) : Stepwise (plane index h) :=
  (Stepwise.bytes _ _).bind fun _ => .ite (.pure _) (.fail Fault.placeless_negativeSize)

theorem stepwise_grayscale : Stepwise (grayscale h passing) := by
  refine (stepwise_descriptor 0).bind fun d => ?_
  obtain ⟨band,nodata⟩ := d
  simp only
  split
  · exact (Stepwise.report _).bind fun _ =>
      .ite ((stepwise_passTail _ _ _).bind fun _ => .pure _) (.pure _)
  · exact (Stepwise.reportIf _ _).bind fun _ => (stepwise_plane _ _).bind fun _ =>
      (Stepwise.paint _ _).bind fun _ => (Stepwise.paint _ _).bind fun _ =>
      (Stepwise.paint _ _).bind fun _ => .pure []

theorem stepwise_compareNodata (index : Nat) (value : UInt8) (first : Option UInt8) :
    Stepwise (compareNodata index value first) := by
  cases first with
  | none => exact .pure ()
  | some f => exact .reportIf _ _

theorem stepwise_fill (index : Nat) : Stepwise (fill index h) := by
  refine (stepwise_plane h index).bind fun samples => ?_
  split
  · exact .paint _ _
  · exact .fail (Fault.placeless_noChannel index)

theorem stepwise_leaveOut (index : Nat) (band : Descriptor) (issue : BandIssue) :
    Stepwise (leaveOut h passing index band issue) :=
  (Stepwise.report _).bind fun _ =>
    .ite ((stepwise_passTail _ _ _).bind fun _ => (Stepwise.reportIf _ _).bind fun _ => .pure _)
      (.pure true)

theorem stepwise_bandsFrom (left : Nat) (first : Option UInt8) (index : Nat) :
    Stepwise (bandsFrom h passing first index left) := by
  induction left generalizing first index with
  | zero => exact .pure []
  | succ left ih =>
      refine (stepwise_descriptor index).bind fun d => ?_
      obtain ⟨band,nodata⟩ := d
      simp only
      split
      · exact (stepwise_leaveOut h passing index band _).bind fun _ =>
          .ite ((ih _ _).bind fun _ => .pure _) (.pure _)
      · exact (stepwise_compareNodata _ _ _).bind fun _ => (stepwise_fill _ _).bind fun _ =>
          ih _ _

end BandStream

theorem Raster.stepwise_readBands (h : Header) (passing : Bool) :
    Stepwise (readBands h passing) :=
  .ite (BandStream.stepwise_grayscale h passing)
    (.ite (BandStream.stepwise_bandsFrom h passing _ none 0)
      ((Stepwise.report _).bind fun _ => .fail (Fault.placeless_bandCount _)))

theorem Raster.stepwise_readBody (passing : Bool) : Stepwise (readBody passing) :=
  Header.stepwise_parse.bind fun h => (Header.stepwise_extent h).bind fun _ =>
    (Stepwise.report _).bind fun _ => (Raster.stepwise_readBands h passing).traced.bind fun _ =>
    .pure _

/-! ### Stretches -/

/-- Stretches that lie one behind the other, from one offset to another. -/
inductive Tiles : Nat → List (Nat × Nat) → Nat → Prop
  | nil (start : Nat) : Tiles start [] start
  | cons {start size stop : Nat} {spans : List (Nat × Nat)}
      (rest : Tiles (start + size) spans stop) : Tiles start ((start, size) :: spans) stop

namespace Tiles
variable {start middle stop : Nat} {spans others : List (Nat × Nat)}

theorem append (first : Tiles start spans middle) (last : Tiles middle others stop) :
    Tiles start (spans ++ others) stop := by
  induction first with
  | nil => exact last
  | cons _ ih => exact .cons (ih last)

theorem le (h : Tiles start spans stop) : start ≤ stop := by
  induction h with
  | nil => exact Nat.le_refl _
  | cons _ ih => omega

theorem within (h : Tiles start spans stop) {span : Nat × Nat} (hs : span ∈ spans) :
    start ≤ span.1 ∧ span.1 + span.2 ≤ stop := by
  induction h with
  | nil => exact absurd hs List.not_mem_nil
  | cons rest ih =>
      have hle := rest.le
      rcases List.mem_cons.mp hs with rfl | hs
      · exact ⟨Nat.le_refl _,hle⟩
      · have hin := ih hs
        omega

end Tiles

/-- The run passed over the stretches of its trace, and over nothing else. -/
structure Run.Covers {α : Type} (c : Cursor) (r : Run α) : Prop where
  tiles : Tiles c.offset r.trace.spans r.cursor.offset
  passed : ∃ front, c.rest = front ++ r.cursor.rest ∧ r.cursor.offset = c.offset + front.length

namespace Run.Covers
variable {α β : Type} {c : Cursor}

theorem stay {t : Trace} (ht : t.spans = []) (result : Except Fault α) (order : Option ByteOrder) :
    Covers c ⟨result, { c with order := order }, t⟩ where
  tiles := by
    rw [ht]
    exact .nil c.offset
  passed := ⟨[],rfl,rfl⟩

theorem took (role : Role) {size : Nat} (h : size ≤ c.remaining) (result : Except Fault α) :
    Covers c ⟨result, c.advance size, [.took role c.offset size]⟩ where
  tiles := .cons (.nil _)
  passed := ⟨c.rest.take size,(List.take_append_drop size c.rest).symm,by
    rw [Cursor.offset_advance, List.length_take_of_le h]⟩

theorem append {first : Run α} {second : Run β} (h : first.Covers c)
    (k : second.Covers first.cursor) :
    Covers c (⟨second.result, second.cursor, first.trace ++ second.trace⟩ : Run β) where
  tiles := by
    rw [Trace.spans_append]
    exact h.tiles.append k.tiles
  passed := by
    obtain ⟨front,hrest,hoffset⟩ := h.passed
    obtain ⟨back,krest,koffset⟩ := k.passed
    refine ⟨front ++ back,?_,?_⟩
    · rw [hrest, krest, List.append_assoc]
    · rw [koffset, hoffset, List.length_append, Nat.add_assoc]

end Run.Covers

/-! ### Where a cursor stands -/

/-- The cursor stands in the stream, and what it has left is what lies behind its offset. -/
structure Cursor.Within (data : List UInt8) (c : Cursor) : Prop where
  le : c.offset ≤ data.length
  rest : c.rest = data.drop c.offset

namespace Cursor.Within
variable {data : List UInt8} {c : Cursor}

theorem start (data : List UInt8) (order : Option ByteOrder) :
    (Cursor.start data order).Within data :=
  ⟨Nat.zero_le _,rfl⟩

theorem total (h : c.Within data) : c.offset + c.remaining = data.length := by
  have hle := h.le
  rw [remaining, h.rest, List.length_drop]
  omega

/-- The next byte is the one at the offset. -/
theorem getElem? (h : c.Within data) {b : UInt8} {bs : List UInt8} (hrest : c.rest = b :: bs) :
    data[c.offset]? = some b := by
  have hhead : (data.drop c.offset)[0]? = some b := by
    rw [← h.rest, hrest]
    rfl
  rwa [List.getElem?_drop] at hhead

/-- A run keeps to the stream of its cursor. -/
theorem covers {α : Type} {r : Run α} (h : c.Within data) (hr : r.Covers c) :
    r.cursor.Within data := by
  obtain ⟨front,hfront,hoffset⟩ := hr.passed
  have htotal := h.total
  rw [remaining, hfront, List.length_append] at htotal
  refine ⟨by omega,?_⟩
  rw [hoffset, ← List.drop_drop, ← h.rest, hfront, List.drop_left]

theorem advance (h : c.Within data) {n : Nat} (hn : n ≤ c.remaining) :
    (c.advance n).Within data :=
  h.covers (.took .field hn (.ok ()))

end Cursor.Within

/-- The stretches in the trace of a stepwise reading tile what it consumed. -/
theorem Reading.Stepwise.covers {α : Type} {r : Reading α} (h : Stepwise r) (c : Cursor) :
    (r.run c).Covers c := by
  induction h generalizing c with
  | pure a => exact .stay rfl _ c.order
  | fail => exact .stay rfl _ c.order
  | report event => exact .stay (t := [.reported event]) rfl _ c.order
  | paint channel plane => exact .stay (t := [.painted channel plane]) rfl _ c.order
  | fixOrder o =>
      cases horder : c.order with
      | none =>
          rw [run_fixOrder_open o horder]
          exact .stay rfl _ (some o)
      | some _ =>
          rw [run_fixOrder_fixed o horder]
          exact .stay rfl _ c.order
  | @supplied _ role d _ =>
      rcases hd : d c.order with fault | ⟨size,view⟩
      · rw [run_supplied_of_error hd]
        exact .stay rfl _ c.order
      · rcases Nat.lt_or_ge c.remaining size with hlt | hle
        · rw [run_supplied_of_lt hd hlt]
          exact .stay rfl _ c.order
        · rw [run_supplied_of_le hd hle]
          exact .took role hle _
  | @bind _ _ r next _ _ ihr ihn =>
      cases hr : (r.run c).result with
      | error fault =>
          rw [run_bind_of_error hr]
          exact ⟨(ihr c).tiles,(ihr c).passed⟩
      | ok a =>
          rw [run_bind_of_ok hr]
          exact (ihr c).append (ihn a _)
  | @traced _ r _ ih =>
      rw [run_traced]
      exact ⟨(ih c).tiles,(ih c).passed⟩

end RasterWkb
