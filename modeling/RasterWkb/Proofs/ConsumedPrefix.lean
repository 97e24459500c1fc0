import RasterWkb.Proofs.Outcomes
import RasterWkb.Proofs.Stepwise
import RasterWkb.Proofs.WholeRecords

/-!
# Input that a run has not seen

A stepwise reading does not know what stands behind the bytes it has consumed. So
its run on a longer input is the same run, unless it had ended for lack of bytes;
then it ends there still, or it takes the very bytes that were lacking.

For decoding this says: the bytes in front of the final offset decide everything,
and with any of them missing the decoding underruns at the first read that does
not fit into what is left.
-/
namespace RasterWkb

/-- The cursor with more bytes behind its own. -/
def Cursor.extend (c : Cursor) (more : List UInt8) : Cursor :=
  { c with rest := c.rest ++ more }

theorem Cursor.remaining_extend (c : Cursor) (more : List UInt8) :
    (c.extend more).remaining = c.remaining + more.length :=
  List.length_append

theorem Cursor.extend_advance {c : Cursor} {size : Nat} (h : size ≤ c.remaining)
    (more : List UInt8) : (c.extend more).advance size = (c.advance size).extend more := by
  simp only [extend, advance, List.drop_append_of_le_length h]

/-- What a run on a longer input can be. -/
inductive Run.Grows {α : Type} (more : List UInt8) : Run α → Run α → Prop
  | same (r : Run α) : Grows more r ⟨r.result, r.cursor.extend more, r.trace⟩
  /-- The longer input is still too short for the same read. -/
  | still {c : Cursor} {t : Trace} {size : Nat} (h : c.remaining + more.length < size) :
      Grows more ⟨.error (.ofUnderrun c.offset size c.remaining), c, t⟩
        ⟨.error (.ofUnderrun c.offset size (c.remaining + more.length)), c.extend more, t⟩
  /-- The read that did not fit succeeds, and the run goes on. -/
  | further {c : Cursor} {t : Trace} {size : Nat} (h : c.remaining < size) (role : Role)
      (later : Trace) (result : Except Fault α) (after : Cursor) :
      Grows more ⟨.error (.ofUnderrun c.offset size c.remaining), c, t⟩
        ⟨result, after, t ++ .took role c.offset size :: later⟩

namespace Run.Grows
variable {α : Type} {more : List UInt8} {r s : Run α}

/-- What was done in front of a run does not matter. -/
theorem behind (h : Grows more r s) (front : Trace) :
    Grows more ⟨r.result, r.cursor, front ++ r.trace⟩ ⟨s.result, s.cursor, front ++ s.trace⟩ := by
  cases h with
  | same => exact .same ⟨r.result,r.cursor,front ++ r.trace⟩
  | still h => exact .still h
  | further h role later result after =>
      rw [← List.append_assoc]
      exact .further h role later result after

end Run.Grows

namespace Reading
variable {α β : Type}

theorem run_bind_grows {r : Reading α} {next : α → Reading β} {more : List UInt8} {c : Cursor}
    (hr : (r.run c).Grows more (r.run (c.extend more)))
    (hn : ∀ a c, ((next a).run c).Grows more ((next a).run (c.extend more))) :
    ((r >>= next).run c).Grows more ((r >>= next).run (c.extend more)) := by
  generalize ha : r.run c = a at hr
  generalize hb : r.run (c.extend more) = b at hr
  cases hr with
  | same =>
      cases hresult : a.result with
      | error fault =>
          rw [run_bind_of_error (by rw [ha, hresult]), run_bind_of_error (by rw [hb, hresult]),
            ha, hb]
          exact .same ⟨.error fault,a.cursor,a.trace⟩
      | ok x =>
          rw [run_bind_of_ok (by rw [ha, hresult]), run_bind_of_ok (by rw [hb, hresult]), ha, hb]
          exact (hn x a.cursor).behind a.trace
  | still h =>
      rw [run_bind_of_error (by rw [ha]), run_bind_of_error (by rw [hb]), ha, hb]
      exact .still h
  | further h role later result after =>
      -- `next` runs on the longer input only: all that it does comes behind the read.
      rw [run_bind_of_error (by rw [ha]), ha]
      cases result with
      | error fault =>
          rw [run_bind_of_error (by rw [hb]), hb]
          exact .further h role later (.error fault) after
      | ok x =>
          rw [run_bind_of_ok (by rw [hb]), hb, List.append_assoc, List.cons_append]
          exact .further h role _ _ _

theorem run_supplied_grows (role : Role) (d : Cursor.Demand α) (c : Cursor) (more : List UInt8) :
    ((consume role (Cursor.supply d)).run c).Grows more
      ((consume role (Cursor.supply d)).run (c.extend more)) := by
  rcases hd : d c.order with fault | ⟨size,view⟩
  · rw [run_supplied_of_error hd, run_supplied_of_error (c := c.extend more) hd]
    exact .same ⟨.error fault,c,[]⟩
  · have hlong := c.remaining_extend more
    rcases Nat.lt_or_ge c.remaining size with hlt | hle
    · rw [run_supplied_of_lt hd hlt]
      rcases Nat.lt_or_ge (c.remaining + more.length) size with hlt' | hle'
      · rw [run_supplied_of_lt (c := c.extend more) hd (by omega), hlong]
        exact .still hlt'
      · rw [run_supplied_of_le (c := c.extend more) hd (by omega)]
        exact .further (t := []) hlt role [] _ _
    · have hview : (c.extend more).rest.take size = c.rest.take size :=
        List.take_append_of_le_length hle
      rw [run_supplied_of_le hd hle, run_supplied_of_le (c := c.extend more) hd (by omega), hview,
        Cursor.extend_advance hle]
      exact .same ⟨.ok (view (c.rest.take size)),c.advance size,[.took role c.offset size]⟩

/-- A stepwise reading takes notice of more input only where it lacked some. -/
theorem Stepwise.grows {r : Reading α} (h : Stepwise r) (c : Cursor) (more : List UInt8) :
    (r.run c).Grows more (r.run (c.extend more)) := by
  induction h generalizing c with
  | pure a => exact .same ⟨.ok a,c,[]⟩
  | @fail _ fault _ => exact .same ⟨.error fault,c,[]⟩
  | report event => exact .same ⟨.ok (),c,[.reported event]⟩
  | paint channel plane => exact .same ⟨.ok (),c,[.painted channel plane]⟩
  | fixOrder o =>
      cases horder : c.order with
      | none =>
          rw [run_fixOrder_open o horder, run_fixOrder_open (c := c.extend more) o horder]
          exact .same ⟨.ok (),{ c with order := some o },[]⟩
      | some _ =>
          rw [run_fixOrder_fixed o horder, run_fixOrder_fixed (c := c.extend more) o horder]
          exact .same ⟨.error .orderFixed,c,[]⟩
  | @supplied _ role d _ => exact run_supplied_grows role d c more
  | bind _ _ ihr ihn => exact run_bind_grows (ihr c) fun a c => ihn a c
  | @traced _ r _ ih =>
      have hr := ih c
      rw [run_traced, run_traced]
      generalize r.run c = a at hr
      generalize r.run (c.extend more) = b at hr
      cases hr with
      | same => exact .same ⟨a.result.map fun x => (x, a.trace),a.cursor,a.trace⟩
      | still h => exact .still h
      | further h role later result after => exact .further h role later _ after

end Reading

/-- The first stretch of a trace that reaches beyond the offset. -/
def Trace.firstBeyond (t : Trace) (offset : Nat) : Option (Nat × Nat) :=
  t.spans.find? fun span => offset < span.1 + span.2

theorem Trace.firstBeyond_append {s t : Trace} {start stop offset size place : Nat} {role : Role}
    (hs : Tiles start s.spans stop) (hle : stop ≤ place) (hlt : place < offset + size) :
    (s ++ .took role offset size :: t).firstBeyond place = some (offset, size) := by
  have hnone : s.spans.find? (fun span => place < span.1 + span.2) = none := by
    apply List.find?_eq_none.mpr
    intro span hspan
    have hw := hs.within hspan
    simp only [decide_eq_true_eq]
    omega
  have hfirst : (spans (.took role offset size :: t)).find?
      (fun span => place < span.1 + span.2) = some (offset, size) := by
    simp only [spans, List.filterMap_cons, Mark.span?]
    exact List.find?_cons_of_pos (decide_eq_true hlt)
  rw [firstBeyond, spans_append, List.find?_append, hnone, hfirst]
  rfl

namespace Raster
variable {s : Settings} {data : List UInt8}

/-- Decoding ends in a raster or in an error about the input. -/
theorem exists_of_decode_error {fault : Fault} (hsize : data.length ≤ s.maxInputBytes)
    (herr : (decode s data).result = .error fault) : ∃ e, fault = .decode e := by
  have underran : (decode s data).Underran → ∃ e, fault = .decode e := by
    rintro ⟨_,-,h⟩
    rw [herr] at h
    injection h with h
    exact ⟨_,h⟩
  have told : ∀ e, (decode s data).result = .error (.decode e) → ∃ e, fault = .decode e := by
    intro e h
    rw [herr] at h
    injection h with h
    exact ⟨e,h⟩
  by_cases hv : 3 ≤ data.length → (Header.ofBytes data).version = 0
  · by_cases hrot : 53 ≤ data.length → (Header.ofBytes data).Unrotated
    · rcases Nat.lt_or_ge data.length 61 with h61 | h61
      · exact underran (decode_short hsize h61 hv hrot)
      · have ha : Header.Accepted data := ⟨h61,hv (by omega),hrot (by omega)⟩
        by_cases hn : (Header.ofBytes data).numBands = 1 ∨ (Header.ofBytes data).numBands = 3
        · rcases decode_bands hsize ha hn with hu | ⟨raster,hok,-⟩
          · exact underran hu
          · rw [herr] at hok
            cases hok
        · rw [not_or] at hn
          exact told _ (decode_band_count hsize ha hn.1 hn.2).1
    · rw [Classical.not_imp] at hrot
      exact told _ (decode_rotation hsize hrot.1 (hv (by omega)) hrot.2).1
  · rw [Classical.not_imp] at hv
    exact told _ (decode_version hsize hv.1 hv.2).1

/-- No read of a decoding is so long that its size could not be told. -/
theorem underrun_of_decode {offset size left : Nat} (hsize : data.length ≤ s.maxInputBytes)
    (herr : (decode s data).result = .error (.ofUnderrun offset size left)) :
    (decode s data).result = .error (.decode (.bufferUnderrun offset size left)) := by
  obtain ⟨e,he⟩ := exists_of_decode_error hsize herr
  rw [herr]
  unfold Fault.ofUnderrun at he ⊢
  generalize IntegerText.isShort (size : Int) = short at he ⊢
  cases short with
  | false => cases he
  | true => rfl

theorem decode_covers (hsize : data.length ≤ s.maxInputBytes) :
    (decode s data).Covers (Cursor.start data none) := by
  rw [decode_of_le hsize]
  exact (stepwise_readBody _).covers _

theorem decode_grows {front back : List UInt8} (hsize : (front ++ back).length ≤ s.maxInputBytes) :
    (decode s front).Grows back (decode s (front ++ back)) := by
  have hfront : front.length ≤ s.maxInputBytes := by
    rw [List.length_append] at hsize
    omega
  rw [decode_of_le hsize, decode_of_le hfront]
  exact (stepwise_readBody _).grows (Cursor.start front none) back

/-- Where a decoding stands and what is left add up to its input. -/
theorem offset_add_remaining (hsize : data.length ≤ s.maxInputBytes) :
    (decode s data).cursor.offset + (decode s data).cursor.remaining = data.length :=
  ((Cursor.Within.start data none).covers (decode_covers hsize)).total

/-- The decoding did not end for lack of bytes. -/
def Complete (r : Run Raster) : Prop :=
  ∀ offset requested remaining,
    r.result ≠ .error (.decode (.bufferUnderrun offset requested remaining))

/-- More bytes mean nothing to a decoding that was complete without them. -/
theorem decode_append {front back : List UInt8} (hsize : (front ++ back).length ≤ s.maxInputBytes)
    (hend : Complete (decode s front)) :
    decode s (front ++ back) =
      ⟨(decode s front).result, (decode s front).cursor.extend back, (decode s front).trace⟩ := by
  have hfront : front.length ≤ s.maxInputBytes := by
    rw [List.length_append] at hsize
    omega
  have hlack : ∀ offset size left,
      (decode s front).result ≠ .error (.ofUnderrun offset size left) := by
    intro offset size left herr
    exact hend offset size left (underrun_of_decode hfront herr)
  have hg := decode_grows hsize
  generalize decode s front = a at hg hlack
  generalize decode s (front ++ back) = b at hg
  cases hg with
  | same => rfl
  | still => exact absurd rfl (hlack _ _ _)
  | further => exact absurd rfl (hlack _ _ _)

/-- What the decoding of the front of an input comes to, seen from that of the whole. -/
inductive Fronted (m : Nat) (whole : Run Raster) : Run Raster → Prop
  | enough {r : Run Raster} (hresult : r.result = whole.result) (htrace : r.trace = whole.trace)
      (hoffset : r.cursor.offset = whole.cursor.offset) : Fronted m whole r
  | cut {offset size : Nat} {r : Run Raster}
      (hfirst : whole.trace.firstBeyond m = some (offset, size)) (hle : offset ≤ m)
      (hlt : m < offset + size) (hend : offset + size ≤ whole.cursor.offset)
      (hresult : r.result = .error (.decode (.bufferUnderrun offset size (m - offset))))
      (hoffset : r.cursor.offset = offset) (htrace : r.trace <+: whole.trace) : Fronted m whole r

theorem fronted (front back : List UInt8) (hsize : (front ++ back).length ≤ s.maxInputBytes)
    (hend : Complete (decode s (front ++ back))) :
    Fronted front.length (decode s (front ++ back)) (decode s front) := by
  have hfront : front.length ≤ s.maxInputBytes := by
    rw [List.length_append] at hsize
    omega
  have hunderrun : ∀ {offset size left}, (decode s front).result =
      .error (.ofUnderrun offset size left) → _ := underrun_of_decode hfront
  have hlack : ∀ offset size left,
      (decode s (front ++ back)).result ≠ .error (.ofUnderrun offset size left) := by
    intro offset size left herr
    exact hend offset size left (underrun_of_decode hsize herr)
  have hstop := offset_add_remaining hfront
  have hfrontCovers := (decode_covers hfront).tiles
  have htiles := (decode_covers hsize).tiles
  have hg := decode_grows hsize
  generalize decode s front = a at hg hstop hunderrun hfrontCovers
  generalize decode s (front ++ back) = b at hg htiles hlack
  cases hg with
  | same => exact .enough rfl rfl rfl
  | still => exact absurd rfl (hlack _ _ _)
  | @further c t size hlt role later result after =>
      have hsum : c.offset + c.remaining = front.length := hstop
      have hleft : c.remaining = front.length - c.offset := by omega
      have hspan : (c.offset, size) ∈ Trace.spans (t ++ .took role c.offset size :: later) := by
        simp [Trace.spans, Mark.span?]
      have hwithin := htiles.within hspan
      refine .cut (Trace.firstBeyond_append hfrontCovers ?_ ?_) ?_ ?_ hwithin.2 ?_ rfl ?_
      · omega
      · omega
      · omega
      · omega
      · rw [← hleft]
        exact hunderrun rfl
      · exact List.prefix_append _ _

theorem fronted_take (hsize : data.length ≤ s.maxInputBytes) (hend : Complete (decode s data))
    {m : Nat} (hm : m ≤ data.length) : Fronted m (decode s data) (decode s (data.take m)) := by
  have h := @fronted s (data.take m) (data.drop m)
  rw [List.take_append_drop, List.length_take_of_le hm] at h
  exact h hsize hend

/-- Inputs that begin with the same consumed bytes are decoded alike. -/
theorem decode_of_take_eq {other : List UInt8} (hsize : data.length ≤ s.maxInputBytes)
    (hend : Complete (decode s data)) (hother : other.length ≤ s.maxInputBytes)
    (htake : other.take (decode s data).cursor.offset = data.take (decode s data).cursor.offset) :
    (decode s other).result = (decode s data).result ∧
      (decode s other).trace = (decode s data).trace ∧
      (decode s other).cursor.offset = (decode s data).cursor.offset := by
  have hn := offset_add_remaining hsize
  have hf : Fronted _ (decode s data) (decode s (data.take (decode s data).cursor.offset)) :=
    fronted_take hsize hend (by omega)
  cases hf with
  | enough hresult htrace hoffset =>
      have happend := @decode_append s (data.take (decode s data).cursor.offset)
        (other.drop (decode s data).cursor.offset)
      rw [← htake, List.take_append_drop, htake] at happend
      rw [happend hother (by rwa [Complete, hresult])]
      exact ⟨hresult,htrace,hoffset⟩
  | cut _ _ hlt hle => omega

/-- Decoding that ends otherwise than for lack of bytes is decided by the bytes it has
consumed: every input that begins with them is decoded alike. Every shorter front of
them underruns at the first read that does not fit into it, and has reported by then
what the whole reports up to there. -/
theorem decode_decided_by_consumed (hsize : data.length ≤ s.maxInputBytes)
    (hend : ∀ offset requested remaining, (decode s data).result ≠
      .error (.decode (.bufferUnderrun offset requested remaining))) :
    (∀ other : List UInt8, other.length ≤ s.maxInputBytes →
      other.take (decode s data).cursor.offset = data.take (decode s data).cursor.offset →
      (decode s other).result = (decode s data).result ∧
        (decode s other).trace.lines = (decode s data).trace.lines ∧
        (decode s other).cursor.offset = (decode s data).cursor.offset) ∧
    ∀ m < (decode s data).cursor.offset, ∃ offset size,
      (decode s data).trace.firstBeyond m = some (offset, size) ∧
      offset ≤ m ∧ m < offset + size ∧
      (decode s (data.take m)).result =
        .error (.decode (.bufferUnderrun offset size (m - offset))) ∧
      (decode s (data.take m)).cursor.offset = offset ∧
      (decode s (data.take m)).trace.lines <+: (decode s data).trace.lines := by
  constructor
  · intro other hother htake
    obtain ⟨hresult,htrace,hoffset⟩ := decode_of_take_eq hsize hend hother htake
    exact ⟨hresult,congrArg Trace.lines htrace,hoffset⟩
  · intro m hm
    have hn := offset_add_remaining hsize
    have hle : m ≤ data.length := by omega
    have hlen : (data.take m).length = m := List.length_take_of_le hle
    have hstop : (decode s (data.take m)).cursor.offset + _ = _ :=
      offset_add_remaining (by omega)
    have hf := fronted_take hsize hend hle
    cases hf with
    | enough _ _ hoffset => omega
    | @cut offset size r hfirst hle hlt _ hresult hoffset htrace =>
        exact ⟨offset,size,hfirst,hle,hlt,hresult,hoffset,
          (htrace.filterMap Mark.event?).map Event.line⟩

/-- Three records of different types and a byte behind them. -/
def mixedPixel : List UInt8 :=
  onePixel (WireBand.stream mixedBands ++ [0xAA])

theorem decode_cut_mixedPixel :
    mixedPixel.length ≤ 4096 ∧
      (decode ⟨true,4096,by decide⟩ (mixedPixel.take 64)).result =
        .error (.decode (.bufferUnderrun 63 3 1)) ∧
      (decode ⟨true,4096,by decide⟩ (mixedPixel.take 64)).cursor.offset = 63 ∧
      (decode ⟨true,4096,by decide⟩ (mixedPixel.take 86 ++ [0x55,0x55])).result =
        (decode ⟨true,4096,by decide⟩ mixedPixel).result := by
  have hsize : mixedPixel.length ≤ 4096 := by decide
  have hok : (decode ⟨true,4096,by decide⟩ mixedPixel).result.toBool = true := by decide
  obtain ⟨hlike,hcut⟩ := decode_decided_by_consumed (s := ⟨true,4096,by decide⟩) hsize (by
    intro offset requested remaining herr
    rw [herr] at hok
    cases hok)
  obtain ⟨offset,size,hfirst,-,-,hresult,hoffset,-⟩ := hcut 64 (by decide)
  have hplace : some (offset, size) = some (63, 3) := hfirst.symm.trans (by decide)
  cases hplace
  exact ⟨hsize,hresult,hoffset,(hlike _ (by decide) (by decide)).1⟩

end Raster

end RasterWkb
