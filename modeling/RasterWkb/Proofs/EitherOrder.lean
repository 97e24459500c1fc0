import RasterWkb.Proofs.DisplacedRuns
import RasterWkb.Proofs.HeaderBytes
import RasterWkb.Proofs.StayingWalk

/-!
# Headers in either byte order

The first byte of a stream chooses the order of the header's fields, and only of
these. A stream whose first byte is exchanged, with the bytes of every field turned
round if the new byte stands for the other order, spells the same header. From
there on decoding knows the order no more, so it comes to the same end, reports the
same and gets as far.
-/
namespace RasterWkb

theorem ByteOrder.decode_reverse {o o' : ByteOrder} (h : o' ≠ o) (bs : List UInt8) :
    o'.decode bs.reverse = o.decode bs := by
  cases o <;> cases o' <;> simp_all [decode, arrange]

namespace Header
variable {bytes : List UInt8} {mark : UInt8}

theorem map_length_pieces {offset : Nat} {ws : List Nat} (h : offset + ws.sum ≤ bytes.length) :
    (pieces bytes offset ws).map List.length = ws := by
  induction ws generalizing offset with
  | nil => rfl
  | cons w ws ih =>
      rw [List.sum_cons] at h
      have hlength : ((bytes.drop offset).take w).length = w := by
        rw [List.length_take, List.length_drop]
        omega
      rw [pieces, List.map_cons, hlength, ih (by omega)]

/-- The fields behind the first byte, turned round if the order is another one. -/
def remarkFields (mark : UInt8) (bytes : List UInt8) : List (List UInt8) :=
  if orderOf mark = orderAt bytes then pieces bytes 1 widths.tail
  else (pieces bytes 1 widths.tail).map List.reverse

/-- The stream with another first byte, and with the bytes of each field of the header turned
round if that byte stands for the other order. What follows the header stays. -/
def remark (mark : UInt8) (bytes : List UInt8) : List UInt8 :=
  mark :: ((remarkFields mark bytes).flatten ++ bytes.drop byteSize)

theorem map_length_remarkFields (h : byteSize ≤ bytes.length) :
    (remarkFields mark bytes).map List.length = widths.tail := by
  have hpieces : (pieces bytes 1 widths.tail).map List.length = widths.tail :=
    map_length_pieces h
  have hreverse : List.length ∘ List.reverse = (List.length : List UInt8 → Nat) :=
    funext fun piece => List.length_reverse
  unfold remarkFields
  split
  · exact hpieces
  · rw [List.map_map, hreverse, hpieces]

theorem length_flatten_remarkFields (h : byteSize ≤ bytes.length) :
    (remarkFields mark bytes).flatten.length = 60 := by
  rw [List.length_flatten, map_length_remarkFields h]
  rfl

theorem length_remark (h : byteSize ≤ bytes.length) :
    (remark mark bytes).length = bytes.length := by
  have hfields : (remarkFields mark bytes).flatten.length = 60 := length_flatten_remarkFields h
  simp only [byteSize] at h
  rw [remark, List.length_cons, List.length_append, hfields, List.length_drop, byteSize]
  omega

theorem drop_remark (h : byteSize ≤ bytes.length) :
    (remark mark bytes).drop byteSize = bytes.drop byteSize := by
  have hfields : (remarkFields mark bytes).flatten.length = 60 := length_flatten_remarkFields h
  have hdrop : (remark mark bytes).drop (60 + 1) =
      ((remarkFields mark bytes).flatten ++ bytes.drop byteSize).drop 60 := List.drop_succ_cons
  rw [← hfields, List.drop_left, hfields] at hdrop
  exact hdrop

/-- The fields of the new stream are what they were, or turned round. -/
theorem pieces_remark (h : byteSize ≤ bytes.length) :
    pieces (remark mark bytes) 1 widths.tail = remarkFields mark bytes := by
  have hcut := pieces_flatten [mark] (remarkFields mark bytes) (bytes.drop byteSize)
  rwa [map_length_remarkFields h] at hcut

/-- Each field has the same value, read in its own order. -/
theorem decode_pieces_remark (h : byteSize ≤ bytes.length) :
    (pieces (remark mark bytes) 1 widths.tail).map (orderOf mark).decode =
      (pieces bytes 1 widths.tail).map (orderAt bytes).decode := by
  rw [pieces_remark h, remarkFields]
  split
  · next hsame => rw [hsame]
  · next hother =>
      rw [List.map_map]
      exact List.map_congr_left fun piece _ => ByteOrder.decode_reverse hother piece

/-- The streams are equally long, spell headers that differ in their order alone, and are the
same behind them. -/
structure Reordered (o : ByteOrder) (bytes other : List UInt8) : Prop where
  length : other.length = bytes.length
  spelled : ofBytes other = { ofBytes bytes with order := o }
  behind : other.drop byteSize = bytes.drop byteSize

theorem reordered_remark (mark : UInt8) (h : byteSize ≤ bytes.length) :
    Reordered (orderOf mark) bytes (remark mark bytes) where
  length := length_remark h
  spelled := by
    have hfields : (pieces (remark mark bytes) 1 widths.tail).map (orderOf mark).decode =
        (pieces bytes 1 widths.tail).map (orderAt bytes).decode := decode_pieces_remark h
    have horder : orderAt (remark mark bytes) = orderOf mark := rfl
    simp only [pieces, widths, List.tail_cons, List.map_cons, List.map_nil, List.cons.injEq,
      and_true, Nat.reduceAdd] at hfields
    obtain ⟨hversion,hbands,hsx,hsy,hox,hoy,hkx,hky,hsrid,hwidth,hheight⟩ := hfields
    simp only [ofBytes, fieldAt, horder, hversion, hbands, hsx, hsy, hox, hoy, hkx, hky, hsrid,
      hwidth, hheight]
  behind := drop_remark h

end Header

/-! ### The order and the bands -/

/-- How the bands are read depends on a header by its number of bands and its size. -/
theorem BandStream.bandsFrom_reordered (h : Header) (o : ByteOrder) (passing : Bool)
    (first : Option UInt8) (index left : Nat) :
    bandsFrom { h with order := o } passing first index left =
      bandsFrom h passing first index left := by
  induction left generalizing first index with
  | zero => rfl
  | succ left ih =>
      simp only [bandsFrom, ih]
      rfl

namespace Raster
open Reading
variable {s : Settings} {data : List UInt8}

theorem readBands_reordered (h : Header) (o : ByteOrder) (passing : Bool) :
    readBands { h with order := o } passing = readBands h passing := by
  unfold readBands BandStream.rgb
  rw [BandStream.bandsFrom_reordered]
  rfl

/-- Two runs that nobody can tell apart but by the order that they leave behind. -/
structure Indistinct (r r' : Run Raster) : Prop where
  result : r'.result = r.result
  trace : r'.trace = r.trace
  offset : r'.cursor.offset = r.cursor.offset

/-- Behind equal headers the bands are read alike, whatever the order. -/
theorem indistinct_finish {h : Header} {o : ByteOrder} {passing : Bool} {front : Trace}
    {c c' : Cursor} (hoffset : c'.offset = c.offset) (hrest : c'.rest = c.rest) :
    Indistinct (finish h front ((readBands h passing).run c))
      (finish { h with order := o } front ((readBands { h with order := o } passing).run c')) := by
  have hmoved : ((readBands h passing).run c).Displaced 0 (fun _ _ => True)
      ((readBands h passing).run c') :=
    movable_readBands h passing c c' ⟨hoffset,hrest,trivial⟩
  have hresult := hmoved.result
  have hsame : ∀ x : Except Fault (List BandIssue), x.mapError (Fault.behind 0) = x := by
    intro x
    cases x with
    | error fault => exact congrArg Except.error fault.behind_zero
    | ok issues => rfl
  rw [hsame] at hresult
  have htrace := hmoved.trace
  rw [Trace.behind_zero] at htrace
  rw [readBands_reordered h o]
  refine ⟨?_,?_,hmoved.cursor.offset⟩
  · rw [finish, finish, hresult, htrace]
    rfl
  · rw [finish, finish, htrace]

theorem indistinct_readBody {passing : Bool} {o : ByteOrder} {other : List UInt8}
    (hlong : Header.byteSize ≤ data.length) (hother : Header.Reordered o data other) :
    Indistinct ((readBody passing).run (.start data none))
      ((readBody passing).run (.start other none)) := by
  have hlong' : Header.byteSize ≤ other.length := by rwa [hother.length]
  have hspelled := hother.spelled
  have hopen : ∀ bytes, (Cursor.start bytes none).order = none := fun _ => rfl
  have hrest : ∀ bytes, (Cursor.start bytes none).rest = bytes := fun _ => rfl
  by_cases hv : (Header.ofBytes data).version = 0
  · by_cases hrot : (Header.ofBytes data).Unrotated
    · have ha : Header.Accepted data := ⟨hlong,hv,hrot⟩
      have ha' : Header.Accepted other :=
        ⟨hlong',by rw [hspelled]; exact hv,by rw [hspelled]; exact hrot⟩
      rw [run_readBody (hopen data) ha, run_readBody (hopen other) ha', hrest, hrest, hspelled]
      exact indistinct_finish rfl hother.behind
    · have hp := Header.parse_rotation (hopen data) hv (Nat.le_trans (by decide) hlong) hrot
      have hp' := Header.parse_rotation (hopen other) (by rw [hrest, hspelled]; exact hv)
        (Nat.le_trans (by decide) hlong') (by rw [hrest, hspelled]; exact hrot)
      rw [hrest, hspelled] at hp'
      rw [run_readBody_of_error (by rw [hp]), run_readBody_of_error (by rw [hp']), hp, hp']
      exact ⟨rfl,rfl,rfl⟩
  · have hp := Header.parse_version (hopen data) (Nat.le_trans (by decide) hlong) hv
    have hp' := Header.parse_version (hopen other) (Nat.le_trans (by decide) hlong')
      (by rw [hrest, hspelled]; exact hv)
    rw [hrest, hspelled] at hp'
    rw [run_readBody_of_error (by rw [hp]), run_readBody_of_error (by rw [hp']), hp, hp']
    exact ⟨rfl,rfl,rfl⟩

/-- Decoding does not depend on the byte order of the header. With another first byte, and with
the bytes of each field of the header turned round if that byte stands for the other order, a
buffer that has a whole header gives the same raster or the same error, with the same
reports, and is consumed as far. -/
theorem decode_remark (s : Settings) (mark : UInt8) (hlong : Header.byteSize ≤ data.length) :
    (decode s (Header.remark mark data)).result = (decode s data).result ∧
      (decode s (Header.remark mark data)).trace.lines = (decode s data).trace.lines ∧
      (decode s (Header.remark mark data)).cursor.offset = (decode s data).cursor.offset := by
  have hother := Header.reordered_remark mark hlong
  rcases Nat.lt_or_ge s.maxInputBytes data.length with hlarge | hsize
  · rw [decode_tooLarge hlarge, decode_tooLarge (by rw [hother.length]; exact hlarge),
      hother.length]
    exact ⟨rfl,rfl,rfl⟩
  · rw [decode_of_le hsize, decode_of_le (by rw [hother.length]; exact hsize)]
    have hsame : Indistinct ((readBody s.skipUnsupportedPayload).run (.start data none))
        ((readBody s.skipUnsupportedPayload).run (.start (Header.remark mark data) none)) :=
      indistinct_readBody hlong hother
    exact ⟨hsame.result,congrArg Trace.lines hsame.trace,hsame.offset⟩

/-- The header of one pixel and three bands whose sizes and count read otherwise in the other
order. -/
theorem decode_remark_misread :
    61 ≤ misread.length ∧
      (Header.remark 0 misread).take 5 = [0,0,0,0,3] ∧
      (decode .standard (Header.remark 0 misread)).result = (decode .standard misread).result ∧
      (decode .standard misread).result.toBool = true := by
  have hlong : Header.byteSize ≤ misread.length := by decide
  exact ⟨hlong,by decide,(decode_remark .standard 0 hlong).1,by decide⟩

end Raster

end RasterWkb
