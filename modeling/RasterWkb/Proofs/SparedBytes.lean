import RasterWkb.Proofs.ConsumedPrefix

/-!
# Nodata and flags

The nodata bytes of bands, the bits of their type bytes that say something about
nodata or nothing at all, and what is passed over of a record have no influence
on a raster, on how decoding ends or on how far it gets. They are heard of in the
reports about nodata and nowhere else.

Which bytes these are is decided by the run itself. Two readings are compared on
two inputs that differ only where given differences are allowed, and where the
first run, as its trace tells, took the bytes for something that does not depend
on such a difference. The comparison is kept by sequencing, so it holds of the
programs of the decoder because it holds of their parts.
-/
namespace RasterWkb

/-- A change of a byte means nothing to what the byte was taken for. Of a type byte that
goes for the changes of bits 4 to 6. -/
def Role.Spares : Role → UInt8 → UInt8 → Prop
  | .nodata _, _, _ => True
  | .passed _, _, _ => True
  | .bandType _, a, b => a &&& 0x8F = b &&& 0x8F
  | _, _, _ => False

instance (role : Role) (a b : UInt8) : Decidable (role.Spares a b) :=
  match role with
  | .nodata _ | .passed _ => .isTrue trivial
  | .bandType _ => inferInstanceAs (Decidable (a &&& 0x8F = b &&& 0x8F))
  | .field | .samples _ => .isFalse id

/-- The mark tells that the byte at the place was taken for something that the change means
nothing to. -/
def Mark.Spares (place : Nat) (a b : UInt8) : Mark → Prop
  | .took role offset size => offset ≤ place ∧ place < offset + size ∧ role.Spares a b
  | _ => False

instance (place : Nat) (a b : UInt8) (mark : Mark) : Decidable (mark.Spares place a b) :=
  match mark with
  | .took role offset size => inferInstanceAs
      (Decidable (offset ≤ place ∧ place < offset + size ∧ role.Spares a b))
  | .reported _ | .painted .. => .isFalse id

def Trace.Spares (t : Trace) (place : Nat) (a b : UInt8) : Prop :=
  ∃ mark ∈ t, mark.Spares place a b

instance (t : Trace) (place : Nat) (a b : UInt8) : Decidable (t.Spares place a b) :=
  inferInstanceAs (Decidable (∃ mark ∈ t, mark.Spares place a b))

/-- A descriptor without the flags about nodata. -/
def Descriptor.bare (d : Descriptor) : Descriptor :=
  { d with hasNodata := false, isNodata := false }

theorem Descriptor.bare_ofByte (b : UInt8) : (ofByte b).bare = ofByte (b &&& 0x8F) :=
  forall_byte (p := fun b => (ofByte b).bare = ofByte (b &&& 0x8F)) (by decide +kernel) b

/-- What is reported apart from nodata. -/
def Event.bare? : Event → Option Event
  | .band index d => some (.band index d.bare)
  | .nodataIgnored _ => none
  | .nodataDiffers .. => none
  | e => some e

def Trace.bareEvents (t : Trace) : List Event :=
  t.events.filterMap Event.bare?

theorem Trace.bareEvents_append (s t : Trace) :
    bareEvents (s ++ t) = bareEvents s ++ bareEvents t := by
  rw [bareEvents, events_append, List.filterMap_append]
  rfl

/-! ### Inputs and runs side by side -/

/-- The lists have the same length and differ only where that is allowed. -/
structure Matched (allowed : Nat → UInt8 → UInt8 → Prop) (xs ys : List UInt8) : Prop where
  length : xs.length = ys.length
  each : ∀ k a b, xs[k]? = some a → ys[k]? = some b → a = b ∨ allowed k a b

namespace Matched
variable {allowed other : Nat → UInt8 → UInt8 → Prop} {xs ys : List UInt8}

theorem take (h : Matched allowed xs ys) (n : Nat)
    (hother : ∀ k < n, ∀ a b, allowed k a b → other k a b) :
    Matched other (xs.take n) (ys.take n) where
  length := by rw [List.length_take, List.length_take, h.length]
  each := by
    intro k a b ha hb
    rw [List.getElem?_take] at ha hb
    by_cases hk : k < n
    · rw [if_pos hk] at ha hb
      exact (h.each k a b ha hb).imp_right (hother k hk a b)
    · rw [if_neg hk] at ha
      cases ha

theorem drop (h : Matched allowed xs ys) (n : Nat) :
    Matched (fun k => allowed (n + k)) (xs.drop n) (ys.drop n) where
  length := by rw [List.length_drop, List.length_drop, h.length]
  each := by
    intro k a b ha hb
    rw [List.getElem?_drop] at ha hb
    exact h.each (n + k) a b ha hb

theorem eq (h : Matched allowed xs ys) (hnone : ∀ k a b, ¬allowed k a b) : xs = ys := by
  refine List.ext_getElem h.length fun k hk hk' => ?_
  have heach := h.each k xs[k] ys[k] (List.getElem?_eq_getElem hk) (List.getElem?_eq_getElem hk')
  exact heach.resolve_right (hnone k _ _)

end Matched

section SideBySide
variable {α β γ δ : Type} {allowed : Nat → UInt8 → UInt8 → Prop}

/-- Two cursors at the same place of inputs that differ only where that is allowed. -/
structure Beside (allowed : Nat → UInt8 → UInt8 → Prop) (c c' : Cursor) : Prop where
  offset : c'.offset = c.offset
  order : c'.order = c.order
  rest : Matched (fun k => allowed (c.offset + k)) c.rest c'.rest

theorem Beside.remaining {c c' : Cursor} (h : Beside allowed c c') :
    c'.remaining = c.remaining :=
  h.rest.length.symm

theorem Beside.advance {c c' : Cursor} (h : Beside allowed c c') (n : Nat) :
    Beside allowed (c.advance n) (c'.advance n) where
  offset := by rw [Cursor.offset_advance, Cursor.offset_advance, h.offset]
  order := h.order
  rest := by
    have hdrop := h.rest.drop n
    simp only [← Nat.add_assoc] at hdrop
    exact hdrop

/-- What the trace tells was taken does not depend on allowed differences. -/
def Trace.Heeds (t : Trace) (allowed : Nat → UInt8 → UInt8 → Prop) : Prop :=
  ∀ role offset size, .took role offset size ∈ t → ∀ k < size, ∀ a b,
    allowed (offset + k) a b → role.Spares a b

theorem Trace.heeds_append {s t : Trace} :
    (s ++ t).Heeds allowed ↔ s.Heeds allowed ∧ t.Heeds allowed := by
  constructor
  · intro h
    exact ⟨fun role offset size hm => h role offset size (List.mem_append_left t hm),
      fun role offset size hm => h role offset size (List.mem_append_right s hm)⟩
  · rintro ⟨hs,ht⟩ role offset size hm
    rcases List.mem_append.mp hm with hm | hm
    · exact hs role offset size hm
    · exact ht role offset size hm

/-- Two results that stand in a relation, or the same fault. -/
inductive SameEnd (R : α → β → Prop) : Except Fault α → Except Fault β → Prop
  | ok {a : α} {b : β} (h : R a b) : SameEnd R (.ok a) (.ok b)
  | error (fault : Fault) : SameEnd R (.error fault) (.error fault)

theorem SameEnd.of_error {R : α → β → Prop} {fault : Fault} {x : Except Fault β}
    (h : SameEnd R (.error fault) x) : x = .error fault := by
  cases h
  rfl

theorem SameEnd.of_ok {R : α → β → Prop} {a : α} {x : Except Fault β} (h : SameEnd R (.ok a) x) :
    ∃ b, x = .ok b ∧ R a b := by
  cases h with
  | ok h => exact ⟨_,rfl,h⟩

theorem SameEnd.eq {x y : Except Fault α} (h : SameEnd Eq x y) : x = y := by
  cases h with
  | ok h => rw [h]
  | error fault => rfl

/-- Two runs that come to related ends at the same place, paint the same and report the
same apart from nodata. -/
structure Alike (allowed : Nat → UInt8 → UInt8 → Prop) (R : α → β → Prop) (r : Run α)
    (r' : Run β) : Prop where
  ends : SameEnd R r.result r'.result
  cursor : Beside allowed r.cursor r'.cursor
  events : r'.trace.bareEvents = r.trace.bareEvents
  paint : ∀ i : Image, r'.trace.paintOn i = r.trace.paintOn i

/-- From cursors side by side the readings run alike, if the first one takes nothing that
depends on the differences. -/
def Parallel (allowed : Nat → UInt8 → UInt8 → Prop) (R : α → β → Prop) (r : Reading α)
    (r' : Reading β) : Prop :=
  ∀ c c', Beside allowed c c' → (r.run c).trace.Heeds allowed →
    Alike allowed R (r.run c) (r'.run c')

namespace Parallel
open Reading
variable {R : α → β → Prop} {S : γ → δ → Prop}

theorem pure {a : α} {b : β} (h : R a b) :
    Parallel allowed R (Pure.pure a : Reading α) (Pure.pure b : Reading β) :=
  fun _ _ hc _ => ⟨.ok h,hc,rfl,fun _ => rfl⟩

theorem fail (fault : Fault) :
    Parallel allowed R (fail fault : Reading α) (Reading.fail fault : Reading β) :=
  fun _ _ hc _ => ⟨.error fault,hc,rfl,fun _ => rfl⟩

theorem paint (channel : Channel) (plane : List UInt8) :
    Parallel allowed Eq (paint channel plane) (Reading.paint channel plane) :=
  fun _ _ hc _ => ⟨.ok rfl,hc,rfl,fun _ => rfl⟩

theorem report {e e' : Event} (h : e'.bare? = e.bare?) :
    Parallel allowed Eq (report e) (Reading.report e') := by
  intro c c' hc _
  refine ⟨.ok rfl,hc,?_,fun _ => rfl⟩
  simp only [run_report, Trace.bareEvents, Trace.events, List.filterMap_cons, Mark.event?, h]

theorem fixOrder (o : ByteOrder) :
    Parallel allowed Eq (fixOrder o) (Reading.fixOrder o) := by
  intro c c' hc _
  cases horder : c.order with
  | none =>
      rw [run_fixOrder_open o horder, run_fixOrder_open o (hc.order.trans horder)]
      exact ⟨.ok rfl,⟨hc.offset,rfl,hc.rest⟩,rfl,fun _ => rfl⟩
  | some _ =>
      rw [run_fixOrder_fixed o horder, run_fixOrder_fixed o (hc.order.trans horder)]
      exact ⟨.error .orderFixed,hc,rfl,fun _ => rfl⟩

/-- A step, if what it makes of bytes does not depend on changes that its role spares. -/
theorem supplied {role : Role} {d : Cursor.Demand α} {R : α → α → Prop}
    (hview : ∀ order size view, d order = .ok (size, view) → ∀ xs ys,
      Matched (fun _ => role.Spares) xs ys → R (view xs) (view ys)) :
    Parallel allowed R (consume role (Cursor.supply d)) (consume role (Cursor.supply d)) := by
  intro c c' hc hheeds
  rcases hd : d c.order with fault | ⟨size,view⟩
  · rw [run_supplied_of_error hd, run_supplied_of_error (by rw [hc.order]; exact hd)]
    exact ⟨.error fault,hc,rfl,fun _ => rfl⟩
  · have hd' : d c'.order = .ok (size, view) := by rw [hc.order]; exact hd
    rcases Nat.lt_or_ge c.remaining size with hlt | hle
    · rw [run_supplied_of_lt hd hlt, run_supplied_of_lt hd' (by rw [hc.remaining]; exact hlt),
        hc.offset, hc.remaining]
      exact ⟨.error _,hc,rfl,fun _ => rfl⟩
    · rw [run_supplied_of_le hd hle] at hheeds ⊢
      rw [run_supplied_of_le hd' (by rw [hc.remaining]; exact hle)]
      have htake : Matched (fun _ => role.Spares) (c.rest.take size) (c'.rest.take size) :=
        hc.rest.take size fun k hk a b =>
          hheeds role c.offset size (List.mem_singleton.mpr rfl) k hk a b
      exact ⟨.ok (hview _ size view hd _ _ htake),hc.advance size,rfl,fun _ => rfl⟩

theorem bind {r : Reading α} {r' : Reading β} {next : α → Reading γ} {next' : β → Reading δ}
    (hr : Parallel allowed R r r')
    (hn : ∀ a b, R a b → Parallel allowed S (next a) (next' b)) :
    Parallel allowed S (r >>= next) (r' >>= next') := by
  intro c c' hc hheeds
  cases ha : (r.run c).result with
  | error fault =>
      rw [run_bind_of_error ha] at hheeds ⊢
      have h := hr c c' hc hheeds
      have hends := h.ends
      rw [ha] at hends
      rw [run_bind_of_error hends.of_error]
      exact ⟨.error fault,h.cursor,h.events,h.paint⟩
  | ok a =>
      rw [run_bind_of_ok ha] at hheeds ⊢
      obtain ⟨hfirst,hsecond⟩ := Trace.heeds_append.mp hheeds
      have h := hr c c' hc hfirst
      have hends := h.ends
      rw [ha] at hends
      obtain ⟨b,hb,hab⟩ := hends.of_ok
      have k := hn a b hab _ _ h.cursor hsecond
      rw [run_bind_of_ok hb]
      refine ⟨k.ends,k.cursor,?_,fun i => ?_⟩
      · rw [Trace.bareEvents_append, Trace.bareEvents_append, h.events, k.events]
      · rw [Trace.paintOn_append, Trace.paintOn_append, h.paint, k.paint]

/-- Sequencing behind readings that give the same. -/
theorem bindEq {r r' : Reading α} {next : α → Reading γ} {next' : α → Reading δ}
    (hr : Parallel allowed Eq r r') (hn : ∀ a, Parallel allowed S (next a) (next' a)) :
    Parallel allowed S (r >>= next) (r' >>= next') :=
  hr.bind fun a _ hab => hab ▸ hn a

theorem traced {r : Reading α} {r' : Reading β} (h : Parallel allowed R r r') :
    Parallel allowed (fun x y => R x.1 y.1 ∧ ∀ i : Image, y.2.paintOn i = x.2.paintOn i)
      (traced r) (Reading.traced r') := by
  intro c c' hc hheeds
  rw [run_traced] at hheeds ⊢
  rw [run_traced]
  have k := h c c' hc hheeds
  refine ⟨?_,k.cursor,k.events,k.paint⟩
  have hends := k.ends
  revert hends
  generalize (r.run c).result = x
  generalize (r'.run c').result = y
  intro hends
  cases hends with
  | ok hab => exact .ok ⟨hab,k.paint⟩
  | error fault => exact .error fault

/-! #### Steps -/

/-- Steps whose roles spare no change. -/
theorem suppliedEq {role : Role} (d : Cursor.Demand α) (hrole : ∀ a b, ¬role.Spares a b) :
    Parallel allowed Eq (consume role (Cursor.supply d)) (consume role (Cursor.supply d)) :=
  .supplied fun _ _ view _ _ _ hm => congrArg view (hm.eq fun _ => hrole)

theorem uint8 (role : Role) {R : UInt8 → UInt8 → Prop} (hrefl : ∀ a, R a a)
    (hspares : ∀ a b, role.Spares a b → R a b) :
    Parallel allowed R (uint8 role) (Reading.uint8 role) := by
  have hstep : Cursor.uint8 = Cursor.supply .uint8 := funext Cursor.uint8_eq_supply
  rw [Reading.uint8, hstep]
  refine .supplied fun order size view hd xs ys hm => ?_
  cases hd
  have hlength := hm.length
  cases xs with
  | nil =>
      cases ys with
      | nil => exact hrefl 0
      | cons y ys => cases hlength
  | cons x xs =>
      cases ys with
      | nil => cases hlength
      | cons y ys =>
          rcases hm.each 0 x y rfl rfl with heq | hspared
          · exact heq ▸ hrefl x
          · exact hspares x y hspared

theorem bytes (role : Role) (hrole : ∀ a b, ¬role.Spares a b) (count : Int) :
    Parallel allowed Eq (bytes role count) (Reading.bytes role count) := by
  have hstep : (fun c : Cursor => c.take count) = Cursor.supply (.bytes count) :=
    funext fun c => c.take_eq_supply count
  rw [Reading.bytes, hstep]
  exact suppliedEq _ hrole

theorem word (w : Word) : Parallel allowed Eq (word w) (Reading.word w) := by
  have hstep : (fun c : Cursor => c.word w) = Cursor.supply (.word w) :=
    funext fun c => c.word_eq_supply w
  rw [Reading.word, hstep]
  exact suppliedEq _ fun _ _ h => h

theorem skip (role : Role) (count : Int) :
    Parallel allowed Eq (skip role count) (Reading.skip role count) := by
  have hstep : (fun c : Cursor => c.take count) = Cursor.supply (.bytes count) :=
    funext fun c => c.take_eq_supply count
  rw [Reading.skip, Reading.bytes, hstep]
  have htake : Parallel allowed (fun _ _ => True) (consume role (Cursor.supply (.bytes count)))
      (consume role (Cursor.supply (.bytes count))) := .supplied fun _ _ _ _ _ _ _ => trivial
  exact htake.bind fun _ _ _ => .pure rfl

theorem uint16 : Parallel allowed Eq uint16 Reading.uint16 := word .uint16

theorem int32 : Parallel allowed Eq int32 Reading.int32 :=
  (word .int32).bindEq fun _ => .pure rfl

theorem float64 : Parallel allowed Eq float64 Reading.float64 :=
  (word .float64).bindEq fun _ => .pure rfl

theorem require (b : Bool) (event : Event) (fault : Fault) :
    Parallel allowed Eq (require b event fault) (Reading.require b event fault) := by
  unfold Reading.require
  cases b with
  | true => exact .pure rfl
  | false => exact (report rfl).bindEq fun _ => .fail fault

/-- Reports that are only about nodata. -/
theorem reportIf {b b' : Bool} {e e' : Event} (he : e.bare? = none) (he' : e'.bare? = none) :
    Parallel allowed Eq (reportIf b e) (Reading.reportIf b' e') := by
  have hnone : ∀ {b : Bool} {e : Event}, e.bare? = none →
      Trace.bareEvents (if b then [.reported e] else []) = [] := by
    intro b e he
    cases b with
    | true => simp [Trace.bareEvents, Trace.events, Mark.event?, he]
    | false => rfl
  have hpaint : ∀ {b : Bool} {e : Event} (i : Image),
      Trace.paintOn (if b then [.reported e] else []) i = i := by
    intro b e i
    cases b <;> rfl
  intro c c' hc _
  rw [run_reportIf, run_reportIf]
  exact ⟨.ok rfl,hc,by rw [hnone he, hnone he'],fun i => by rw [hpaint, hpaint]⟩

end Parallel

/-! ### The programs of the decoder -/

theorem Header.parallel_parse : Parallel allowed Eq parse parse :=
  (Parallel.uint8 .field (fun _ => rfl) fun _ _ h => False.elim h).bindEq fun _ =>
    (Parallel.fixOrder _).bindEq fun _ => Parallel.uint16.bindEq fun _ =>
    (Parallel.require _ _ _).bindEq fun _ => Parallel.uint16.bindEq fun _ =>
    Parallel.float64.bindEq fun _ => Parallel.float64.bindEq fun _ =>
    Parallel.float64.bindEq fun _ => Parallel.float64.bindEq fun _ =>
    Parallel.float64.bindEq fun _ => Parallel.float64.bindEq fun _ =>
    (Parallel.require _ _ _).bindEq fun _ => Parallel.int32.bindEq fun _ =>
    Parallel.uint16.bindEq fun _ => Parallel.uint16.bindEq fun _ =>
    ((Parallel.report rfl).bindEq fun _ => (Parallel.report rfl).bindEq fun _ =>
      (Parallel.report rfl).bindEq fun _ => (Parallel.report rfl).bindEq fun _ =>
      Parallel.report rfl).bindEq fun _ => .pure rfl

namespace BandStream
variable (h : Header) (passing : Bool) {d d' : Descriptor}

theorem parallel_descriptor (index : Nat) :
    Parallel allowed (fun x y => x.1.bare = y.1.bare) (descriptor index) (descriptor index) := by
  have hkind : Parallel allowed
      (fun a b => (Descriptor.ofByte a).bare = (Descriptor.ofByte b).bare)
      (Reading.uint8 (.bandType index)) (Reading.uint8 (.bandType index)) := by
    refine .uint8 _ (fun _ => rfl) fun a b hab => ?_
    have hmask : a &&& 0x8F = b &&& 0x8F := hab
    rw [Descriptor.bare_ofByte, Descriptor.bare_ofByte, hmask]
  refine hkind.bind fun a b hab => ?_
  refine (Parallel.report ?_).bindEq fun _ => ?_
  · rw [Event.bare?, Event.bare?, hab]
  · have hnodata : Parallel allowed (fun _ _ => True) (Reading.uint8 (.nodata index))
        (Reading.uint8 (.nodata index)) := .uint8 _ (fun _ => trivial) fun _ _ _ => trivial
    exact hnodata.bind fun _ _ _ => .pure hab

theorem issue?_of_bare (index : Nat) (hd : d.bare = d'.bare) : issue? index d = issue? index d' :=
  (congrArg (issue? index) hd : issue? index d.bare = issue? index d'.bare)

theorem tail?_of_bare (area : Int) (hd : d.bare = d'.bare) : d.tail? area = d'.tail? area :=
  (congrArg (Descriptor.tail? · area) hd : d.bare.tail? area = d'.bare.tail? area)

theorem parallel_passTail (index : Nat) (area : Int) (hd : d.bare = d'.bare) :
    Parallel allowed Eq (passTail index d area) (passTail index d' area) := by
  unfold passTail
  rw [tail?_of_bare area hd]
  split
  · exact .pure rfl
  · exact (Parallel.skip _ _).bindEq fun _ => .pure rfl

theorem parallel_leaveOut (index : Nat) (hd : d.bare = d'.bare) (issue : BandIssue) :
    Parallel allowed Eq (leaveOut h passing index d issue) (leaveOut h passing index d' issue) := by
  refine (Parallel.report rfl).bindEq fun _ => ?_
  cases passing with
  | false => exact .pure rfl
  | true =>
      refine (parallel_passTail index h.area hd).bindEq fun located => ?_
      cases located with
      | true => exact .pure rfl
      | false => exact (Parallel.report rfl).bindEq fun _ => .pure rfl

theorem parallel_plane (index : Nat) :
    Parallel allowed Eq (plane index h) (plane index h) := by
  refine (Parallel.bytes (.samples index) (fun _ _ h => h) h.area).bindEq fun samples => ?_
  split
  · exact .pure rfl
  · exact .fail _

theorem parallel_grayscale : Parallel allowed Eq (grayscale h passing) (grayscale h passing) := by
  refine (parallel_descriptor 0).bind fun x y hxy => ?_
  obtain ⟨d,nodata⟩ := x
  obtain ⟨d',nodata'⟩ := y
  simp only [issue?_of_bare 0 hxy]
  split
  · refine (Parallel.report rfl).bindEq fun _ => ?_
    cases passing with
    | false => exact .pure rfl
    | true => exact (parallel_passTail 0 h.area hxy).bindEq fun _ => .pure rfl
  · exact (Parallel.reportIf rfl rfl).bindEq fun _ => (parallel_plane h 0).bindEq fun _ =>
      (Parallel.paint _ _).bindEq fun _ => (Parallel.paint _ _).bindEq fun _ =>
      (Parallel.paint _ _).bindEq fun _ => .pure rfl

theorem parallel_compareNodata (index : Nat) (value value' : UInt8) (first first' : Option UInt8) :
    Parallel allowed Eq (compareNodata index value first) (compareNodata index value' first') := by
  have hnone : ∀ value first, compareNodata index value first =
      Reading.reportIf (first.any (value != ·)) (.nodataDiffers index value (first.getD 0)) := by
    intro value first
    cases first <;> rfl
  rw [hnone, hnone]
  exact .reportIf rfl rfl

theorem parallel_fill (index : Nat) :
    Parallel allowed Eq (fill index h) (fill index h) := by
  refine (parallel_plane h index).bindEq fun samples => ?_
  split
  · exact .paint _ _
  · exact .fail _

/-- What nodata byte came first does not matter either. -/
theorem parallel_bandsFrom (left : Nat) (first first' : Option UInt8) (index : Nat) :
    Parallel allowed Eq (bandsFrom h passing first index left)
      (bandsFrom h passing first' index left) := by
  induction left generalizing first first' index with
  | zero => exact .pure rfl
  | succ left ih =>
      refine (parallel_descriptor index).bind fun x y hxy => ?_
      obtain ⟨d,nodata⟩ := x
      obtain ⟨d',nodata'⟩ := y
      simp only [issue?_of_bare index hxy]
      split
      · refine (parallel_leaveOut h passing index hxy _).bindEq fun goesOn => ?_
        cases goesOn with
        | true => exact (ih _ _ _).bindEq fun _ => .pure rfl
        | false => exact .pure rfl
      · exact (parallel_compareNodata _ _ _ _ _).bindEq fun _ =>
          (parallel_fill h index).bindEq fun _ => ih _ _ _

end BandStream

namespace Raster

theorem parallel_readBands (h : Header) (passing : Bool) :
    Parallel allowed Eq (readBands h passing) (readBands h passing) := by
  unfold readBands
  split
  · exact BandStream.parallel_grayscale h passing
  · split
    · exact BandStream.parallel_bandsFrom h passing _ none none 0
    · exact (Parallel.report rfl).bindEq fun _ => .fail _

theorem parallel_readBody (passing : Bool) :
    Parallel allowed Eq (readBody passing) (readBody passing) := by
  refine Header.parallel_parse.bindEq fun header => ?_
  have hextent : Parallel allowed Eq (Reading.ofExcept header.extent)
      (Reading.ofExcept header.extent) := by
    cases header.extent with
    | error fault => exact .fail fault
    | ok extent => exact .pure rfl
  refine hextent.bindEq fun extent => (Parallel.report rfl).bindEq fun _ => ?_
  refine (parallel_readBands header passing).traced.bind fun x y hxy => ?_
  obtain ⟨issues,painting⟩ := x
  obtain ⟨issues',painting'⟩ := y
  obtain ⟨rfl,hpaint⟩ := hxy
  refine .pure ?_
  simp only [hpaint]

end Raster

end SideBySide

/-- Stretches do not overlap, so a byte is taken for one thing only. -/
theorem Tiles.role_eq {t : Trace} {start stop offset size offset' size' place : Nat}
    {role role' : Role} (ht : Tiles start t.spans stop) (hm : .took role offset size ∈ t)
    (hm' : .took role' offset' size' ∈ t) (hin : offset ≤ place ∧ place < offset + size)
    (hin' : offset' ≤ place ∧ place < offset' + size') : role = role' := by
  induction t generalizing start with
  | nil => exact absurd hm List.not_mem_nil
  | cons mark t ih =>
      cases mark with
      | took r o n =>
          obtain ⟨rfl,rest⟩ : o = start ∧ Tiles (start + n) (Trace.spans t) stop := by
            cases ht with
            | cons rest => exact ⟨rfl,rest⟩
          have hlater : ∀ {role offset size}, .took role offset size ∈ t → o + n ≤ offset :=
            fun hmem => (rest.within (List.mem_filterMap.mpr ⟨_,hmem,rfl⟩)).1
          rcases List.mem_cons.mp hm with heq | hin_t
          · cases heq
            rcases List.mem_cons.mp hm' with heq' | hin_t'
            · cases heq'
              rfl
            · have hle := hlater hin_t'
              omega
          · rcases List.mem_cons.mp hm' with heq' | hin_t'
            · cases heq'
              have hle := hlater hin_t
              omega
            · exact ih rest hin_t hin_t'
      | reported event =>
          exact ih ht (List.mem_of_ne_of_mem Mark.noConfusion hm)
            (List.mem_of_ne_of_mem Mark.noConfusion hm')
      | painted channel plane =>
          exact ih ht (List.mem_of_ne_of_mem Mark.noConfusion hm)
            (List.mem_of_ne_of_mem Mark.noConfusion hm')

namespace Raster
variable {s : Settings} {data other : List UInt8}

/-- A run heeds the changes that its own trace spares, and those of bytes that it did not
come to. -/
theorem heeds_spares {r : Run Raster} {c : Cursor} (h : r.Covers c) :
    r.trace.Heeds fun place a b => r.trace.Spares place a b ∨ r.cursor.offset ≤ place := by
  intro role offset size hm k hk a b hallowed
  rcases hallowed with ⟨mark,hm',hspares⟩ | hbeyond
  · cases mark with
    | took role' offset' size' =>
        obtain ⟨hle,hlt,hspares⟩ := hspares
        have hin : offset ≤ offset + k ∧ offset + k < offset + size := by omega
        -- What spares the change is the stretch that the byte lies in, not another one.
        rw [h.tiles.role_eq hm hm' hin ⟨hle,hlt⟩]
        exact hspares
    | reported event => exact hspares.elim
    | painted channel plane => exact hspares.elim
  · have hwithin := h.tiles.within (List.mem_filterMap.mpr ⟨_,hm,rfl⟩)
    simp only at hwithin
    omega

/-- Decoding does not depend on nodata, on the bits of type bytes that are about nodata or
about nothing, and on what is passed over. If another buffer of the same length differs, as
far as the first one was consumed, only where the run on the first one took bytes for such
things, the result and the final offset are the same, and what is reported apart from
nodata is the same. -/
theorem decode_spared (hlength : other.length = data.length)
    (hspared : ∀ place a b, place < (decode s data).cursor.offset → data[place]? = some a →
      other[place]? = some b → a ≠ b → (decode s data).trace.Spares place a b) :
    (decode s other).result = (decode s data).result ∧
      (decode s other).cursor.offset = (decode s data).cursor.offset ∧
      (decode s other).trace.bareEvents = (decode s data).trace.bareEvents := by
  rcases Nat.lt_or_ge s.maxInputBytes data.length with hlarge | hsize
  · rw [decode_tooLarge hlarge, decode_tooLarge (by rw [hlength]; exact hlarge), hlength]
    exact ⟨rfl,rfl,rfl⟩
  · have hheeds := heeds_spares (decode_covers hsize)
    have hbeside : Beside (fun place a b => (decode s data).trace.Spares place a b ∨
        (decode s data).cursor.offset ≤ place) (.start data none) (.start other none) := by
      refine ⟨rfl,rfl,hlength.symm,fun k a b ha hb => ?_⟩
      have hplace : (Cursor.start data none).offset + k = k := Nat.zero_add k
      rw [hplace]
      by_cases hab : a = b
      · exact .inl hab
      · rcases Nat.lt_or_ge k (decode s data).cursor.offset with hlt | hge
        · exact .inr (.inl (hspared k a b hlt ha hb hab))
        · exact .inr (.inr hge)
    rw [decode_of_le hsize] at hheeds hbeside ⊢
    rw [decode_of_le (by rw [hlength]; exact hsize)]
    have halike := parallel_readBody s.skipUnsupportedPayload _ _ hbeside hheeds
    exact ⟨halike.ends.eq.symm,halike.cursor.offset,halike.events⟩

/-- Three records of a raster of one pixel, the first of which is passed over, and what they may
be changed to. -/
def sparing (changed : Bool) : List UInt8 :=
  onePixel (if changed then [0x75,1,2,3,4] ++ [0x54,200,77] ++ [4,8,2]
    else [5,0,0x84,9,4] ++ [4,8,77] ++ [4,1,2])

theorem decode_sparing :
    (decode ⟨true,4096,by decide⟩ (sparing true)).result =
        (decode ⟨true,4096,by decide⟩ (sparing false)).result ∧
      (decode ⟨true,4096,by decide⟩ (sparing false)).result.toBool = true := by
  have hend : (decode ⟨true,4096,by decide⟩ (sparing false)).cursor.offset = 72 := by decide
  have hall : ∀ place < 72, ∀ a ∈ (sparing false)[place]?, ∀ b ∈ (sparing true)[place]?, a ≠ b →
      (decode ⟨true,4096,by decide⟩ (sparing false)).trace.Spares place a b := by decide +kernel
  have hspared := decode_spared (s := ⟨true,4096,by decide⟩) (by decide)
    fun place a b hlt ha hb hne => hall place (by rwa [hend] at hlt) a ha b hb hne
  exact ⟨hspared.1,by decide⟩

end Raster

end RasterWkb
