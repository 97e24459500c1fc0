import RasterWkb.Proofs.Decoding
import RasterWkb.Proofs.Stepwise

/-!
# The same bytes at another place

What a reading makes of the bytes in front of it does not depend on how many bytes
came before them. Started so much further on, a run gives the same result and the
same reports, and the places that it mentions are so much larger. Readings that
take no multi-byte fields do not depend on the byte order either.

Two cursors are compared under a relation between their orders. For headers the
relation is equality. For bands it is left open, so one comparison serves both for
a decoding that starts in the middle of a stream and for one in the other order.
-/
namespace RasterWkb

/-! ### Places that are so much larger -/

/-- The fault with its place so much further on. -/
def Fault.behind (k : Nat) : Fault → Fault
  | .decode (.bufferUnderrun offset requested remaining) =>
    .decode (.bufferUnderrun (offset + k) requested remaining)
  | fault => fault

theorem Fault.Placeless.behind {fault : Fault} (h : fault.Placeless) (k : Nat) :
    fault.behind k = fault := by
  unfold Fault.behind
  split
  · next offset requested remaining => exact absurd rfl (h offset requested remaining)
  · rfl

theorem Fault.behind_ofUnderrun (k offset requested remaining : Nat) :
    (ofUnderrun offset requested remaining).behind k =
      ofUnderrun (offset + k) requested remaining := by
  unfold ofUnderrun
  split <;> rfl

@[simp] theorem Fault.behind_zero (fault : Fault) : fault.behind 0 = fault := by
  unfold behind
  split <;> rfl

def Mark.behind (k : Nat) : Mark → Mark
  | .took role offset size => .took role (offset + k) size
  | mark => mark

namespace Trace

/-- The trace with its places so much further on. -/
def behind (k : Nat) (t : Trace) : Trace :=
  t.map (Mark.behind k)

@[simp] theorem behind_append (k : Nat) (s t : Trace) :
    behind k (s ++ t) = behind k s ++ behind k t :=
  List.map_append

@[simp] theorem behind_zero (t : Trace) : t.behind 0 = t := by
  have hmark : ∀ mark : Mark, mark.behind 0 = mark := by
    intro mark
    cases mark <;> rfl
  rw [behind, funext hmark, List.map_id']

@[simp] theorem events_behind (k : Nat) (t : Trace) : (t.behind k).events = t.events := by
  have hmark : ∀ mark : Mark, (mark.behind k).event? = mark.event? := by
    intro mark
    cases mark <;> rfl
  rw [events, behind, List.filterMap_map]
  exact congrArg (List.filterMap · t) (funext hmark)

@[simp] theorem lines_behind (k : Nat) (t : Trace) : (t.behind k).lines = t.lines :=
  congrArg (List.map Event.line) (events_behind k t)

@[simp] theorem paintOn_behind (k : Nat) (t : Trace) (i : Image) :
    (t.behind k).paintOn i = t.paintOn i := by
  have hmark : ∀ (i : Image) (mark : Mark), (mark.behind k).paintOn i = mark.paintOn i := by
    intro i mark
    cases mark <;> rfl
  simp only [paintOn, behind, List.foldl_map, hmark]

end Trace

/-! ### Displaced cursors and runs -/

section Displaced
variable {α β : Type} {k : Nat} {orders : Option ByteOrder → Option ByteOrder → Prop}

/-- The same bytes are left at both cursors, and the second one is so much further on. -/
structure Cursor.Displaced (k : Nat) (orders : Option ByteOrder → Option ByteOrder → Prop)
    (c c' : Cursor) : Prop where
  offset : c'.offset = c.offset + k
  rest : c'.rest = c.rest
  order : orders c.order c'.order

theorem Cursor.Displaced.remaining {c c' : Cursor} (h : c.Displaced k orders c') :
    c'.remaining = c.remaining :=
  congrArg List.length h.rest

theorem Cursor.Displaced.advance {c c' : Cursor} (h : c.Displaced k orders c') (n : Nat) :
    (c.advance n).Displaced k orders (c'.advance n) where
  offset := by
    rw [offset_advance, offset_advance, h.offset]
    omega
  rest := congrArg (List.drop n) h.rest
  order := h.order

/-- The second run is the first one at another place. -/
structure Run.Displaced (k : Nat) (orders : Option ByteOrder → Option ByteOrder → Prop)
    (r r' : Run α) : Prop where
  result : r'.result = r.result.mapError (Fault.behind k)
  cursor : r.cursor.Displaced k orders r'.cursor
  trace : r'.trace = r.trace.behind k

/-- From displaced cursors the reading has displaced runs. -/
def Reading.Movable (k : Nat) (orders : Option ByteOrder → Option ByteOrder → Prop)
    (r : Reading α) : Prop :=
  ∀ c c', c.Displaced k orders c' → (r.run c).Displaced k orders (r.run c')

namespace Reading.Movable
open Reading

theorem pure (a : α) : Movable k orders (Pure.pure a : Reading α) :=
  fun _ _ h => ⟨rfl,h,rfl⟩

theorem fail {fault : Fault} (hf : fault.Placeless) :
    Movable k orders (Reading.fail fault : Reading α) :=
  fun _ _ h => ⟨congrArg Except.error (hf.behind k).symm,h,rfl⟩

theorem report (event : Event) : Movable k orders (Reading.report event) :=
  fun _ _ h => ⟨rfl,h,rfl⟩

theorem paint (channel : Channel) (plane : List UInt8) :
    Movable k orders (Reading.paint channel plane) :=
  fun _ _ h => ⟨rfl,h,rfl⟩

/-- A step whose demand is the same in both orders. -/
theorem supplied (role : Role) {d : Cursor.Demand α} (hplaceless : d.Placeless)
    (hd : ∀ o o', orders o o' → d o' = d o) :
    Movable k orders (consume role (Cursor.supply d)) := by
  intro c c' h
  have horder := hd _ _ h.order
  rcases hask : d c.order with fault | ⟨size,view⟩
  · rw [run_supplied_of_error hask, run_supplied_of_error (horder.trans hask)]
    exact ⟨congrArg Except.error ((hplaceless _ _ hask).behind k).symm,h,rfl⟩
  · rcases Nat.lt_or_ge c.remaining size with hlt | hle
    · rw [run_supplied_of_lt hask hlt,
        run_supplied_of_lt (horder.trans hask) (by rw [h.remaining]; exact hlt), h.offset,
        h.remaining, ← Fault.behind_ofUnderrun]
      exact ⟨rfl,h,rfl⟩
    · rw [run_supplied_of_le hask hle,
        run_supplied_of_le (horder.trans hask) (by rw [h.remaining]; exact hle), h.offset, h.rest]
      exact ⟨rfl,h.advance size,rfl⟩

theorem bind {r : Reading α} {next : α → Reading β} (hr : Movable k orders r)
    (hn : ∀ a, Movable k orders (next a)) : Movable k orders (r >>= next) := by
  intro c c' h
  have hfirst := hr c c' h
  have hresult := hfirst.result
  cases ha : (r.run c).result with
  | error fault =>
      rw [ha] at hresult
      rw [run_bind_of_error ha, run_bind_of_error hresult]
      exact ⟨rfl,hfirst.cursor,hfirst.trace⟩
  | ok a =>
      rw [ha] at hresult
      have hsecond := hn a _ _ hfirst.cursor
      rw [run_bind_of_ok ha, run_bind_of_ok hresult]
      refine ⟨hsecond.result,hsecond.cursor,?_⟩
      rw [hfirst.trace, hsecond.trace, Trace.behind_append]

/-- What is made of a reading and of its own trace, if places in the trace do not matter. -/
theorem tracedPure {r : Reading α} (hr : Movable k orders r) {f : α × Trace → β}
    (hf : ∀ a t, f (a, t.behind k) = f (a, t)) :
    Movable k orders (traced r >>= fun x => Pure.pure (f x)) := by
  intro c c' h
  have hrun := hr c c' h
  rw [run_bind_pure, run_bind_pure, run_traced, run_traced]
  refine ⟨?_,hrun.cursor,hrun.trace⟩
  simp only [hrun.result, hrun.trace]
  cases (r.run c).result with
  | error fault => rfl
  | ok a => exact congrArg Except.ok (hf a _)

theorem bytes (role : Role) (count : Int) : Movable k orders (Reading.bytes role count) := by
  have hstep : (fun c : Cursor => c.take count) = Cursor.supply (.bytes count) :=
    funext fun c => c.take_eq_supply count
  rw [Reading.bytes, hstep]
  exact supplied role (Cursor.Demand.placeless_bytes count) fun _ _ _ => rfl

theorem uint8 (role : Role) : Movable k orders (Reading.uint8 role) := by
  have hstep : Cursor.uint8 = Cursor.supply .uint8 := funext Cursor.uint8_eq_supply
  rw [Reading.uint8, hstep]
  exact supplied role Cursor.Demand.placeless_uint8 fun _ _ _ => rfl

theorem skip (role : Role) (count : Int) : Movable k orders (Reading.skip role count) :=
  (bytes role count).bind fun _ => .pure ()

theorem ite {p : Prop} [Decidable p] {r s : Reading α} (hr : Movable k orders r)
    (hs : Movable k orders s) : Movable k orders (if p then r else s) := by
  split
  · exact hr
  · exact hs

theorem reportIf (b : Bool) (event : Event) : Movable k orders (Reading.reportIf b event) :=
  .ite (.report event) (.pure ())

theorem require (b : Bool) (event : Event) {fault : Fault} (h : fault.Placeless) :
    Movable k orders (Reading.require b event fault) :=
  .ite (.pure ()) ((report event).bind fun _ => .fail h)

/-! #### Steps that depend on the order -/

theorem word (w : Word) : Movable k Eq (Reading.word w) := by
  have hstep : (fun c : Cursor => c.word w) = Cursor.supply (.word w) :=
    funext fun c => c.word_eq_supply w
  rw [Reading.word, hstep]
  exact supplied .field (Cursor.Demand.placeless_word w) fun _ _ h => congrArg _ h.symm

theorem fixOrder (o : ByteOrder) : Movable k Eq (Reading.fixOrder o) := by
  intro c c' h
  have horder : c'.order = c.order := h.order.symm
  cases ho : c.order with
  | none =>
      rw [run_fixOrder_open o ho, run_fixOrder_open o (horder.trans ho)]
      exact ⟨rfl,⟨h.offset,h.rest,rfl⟩,rfl⟩
  | some fixed =>
      rw [run_fixOrder_fixed o ho, run_fixOrder_fixed o (horder.trans ho)]
      exact ⟨rfl,h,rfl⟩

theorem uint16 : Movable k Eq Reading.uint16 := word .uint16

theorem int32 : Movable k Eq Reading.int32 := (word .int32).bind fun _ => .pure _

theorem float64 : Movable k Eq Reading.float64 := (word .float64).bind fun _ => .pure _

end Reading.Movable

/-! ### The readings of the decoder -/

open Reading

namespace BandStream
variable (h : Header) (passing : Bool)

theorem movable_descriptor (index : Nat) : Movable k orders (descriptor index) :=
  (Movable.uint8 _).bind fun _ => (Movable.report _).bind fun _ =>
    (Movable.uint8 _).bind fun _ => .pure _

theorem movable_passTail (index : Nat) (band : Descriptor) (area : Int) :
    Movable k orders (passTail index band area) := by
  unfold passTail
  split
  · exact .pure false
  · exact (Movable.skip _ _).bind fun _ => .pure true

theorem movable_plane (index : Nat) : Movable k orders (plane index h) :=
  (Movable.bytes _ _).bind fun _ => .ite (.pure _) (.fail Fault.placeless_negativeSize)

theorem movable_grayscale : Movable k orders (grayscale h passing) := by
  refine (movable_descriptor 0).bind fun ⟨band,nodata⟩ => ?_
  simp only
  split
  · exact (Movable.report _).bind fun _ =>
      .ite ((movable_passTail _ _ _).bind fun _ => .pure _) (.pure _)
  · exact (Movable.reportIf _ _).bind fun _ => (movable_plane _ _).bind fun _ =>
      (Movable.paint _ _).bind fun _ => (Movable.paint _ _).bind fun _ =>
      (Movable.paint _ _).bind fun _ => .pure []

theorem movable_compareNodata (index : Nat) (value : UInt8) (first : Option UInt8) :
    Movable k orders (compareNodata index value first) := by
  cases first with
  | none => exact .pure ()
  | some f => exact .reportIf _ _

theorem movable_fill (index : Nat) : Movable k orders (fill index h) := by
  refine (movable_plane h index).bind fun samples => ?_
  split
  · exact .paint _ _
  · exact .fail (Fault.placeless_noChannel index)

theorem movable_leaveOut (index : Nat) (band : Descriptor) (issue : BandIssue) :
    Movable k orders (leaveOut h passing index band issue) :=
  (Movable.report _).bind fun _ =>
    .ite ((movable_passTail _ _ _).bind fun _ => (Movable.reportIf _ _).bind fun _ => .pure _)
      (.pure true)

theorem movable_bandsFrom (left : Nat) (first : Option UInt8) (index : Nat) :
    Movable k orders (bandsFrom h passing first index left) := by
  induction left generalizing first index with
  | zero => exact .pure []
  | succ left ih =>
      refine (movable_descriptor index).bind fun ⟨band,nodata⟩ => ?_
      simp only
      split
      · exact (movable_leaveOut h passing index band _).bind fun _ =>
          .ite ((ih _ _).bind fun _ => .pure _) (.pure _)
      · exact (movable_compareNodata _ _ _).bind fun _ => (movable_fill _ _).bind fun _ =>
          ih _ _

end BandStream

theorem Raster.movable_readBands (h : Header) (passing : Bool) :
    Movable k orders (readBands h passing) :=
  .ite (BandStream.movable_grayscale h passing)
    (.ite (BandStream.movable_bandsFrom h passing _ none 0)
      ((Movable.report _).bind fun _ => .fail (Fault.placeless_bandCount _)))

theorem Header.movable_parse : Movable k Eq parse :=
  (Movable.uint8 _).bind fun _ => (Movable.fixOrder _).bind fun _ =>
    Movable.uint16.bind fun _ =>
    (Movable.require _ _ (Fault.placeless_version _)).bind fun _ =>
    Movable.uint16.bind fun _ => Movable.float64.bind fun _ => Movable.float64.bind fun _ =>
    Movable.float64.bind fun _ => Movable.float64.bind fun _ => Movable.float64.bind fun _ =>
    Movable.float64.bind fun _ =>
    (Movable.require _ _ (Fault.placeless_rotation _ _)).bind fun _ =>
    Movable.int32.bind fun _ => Movable.uint16.bind fun _ => Movable.uint16.bind fun _ =>
    ((Movable.report _).bind fun _ => (Movable.report _).bind fun _ =>
      (Movable.report _).bind fun _ => (Movable.report _).bind fun _ =>
      Movable.report _).bind fun _ => .pure _

theorem Header.movable_extent (h : Header) : Movable k orders (ofExcept h.extent) := by
  cases he : h.extent with
  | error fault => exact .fail (placeless_of_extent he)
  | ok extent => exact .pure extent

theorem Raster.movable_readBody (passing : Bool) : Movable k Eq (readBody passing) :=
  Header.movable_parse.bind fun h => (Header.movable_extent h).bind fun _ =>
    (Movable.report _).bind fun _ => (movable_readBands h passing).tracedPure fun _ t => by
      simp only [Trace.paintOn_behind]

end Displaced

end RasterWkb
