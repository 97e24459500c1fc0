import RasterWkb.Proofs.HeaderLayout

/-!
# A header and its bytes determine each other

The bytes of a header are the segments of its fields in order. Cutting a stream
at the field boundaries gives these segments back, whatever follows them, and
writing the header that a stream spells restores the stream, its first byte
apart. Both directions are read off one cutting function; the single fields are
never moved past each other.
-/
namespace RasterWkb.Header

/-- Consecutive pieces of the given widths, the first one at the offset. -/
def pieces (bytes : List UInt8) (offset : Nat) : List Nat → List (List UInt8)
  | [] => []
  | w :: ws => (bytes.drop offset).take w :: pieces bytes (offset + w) ws

theorem flatten_pieces (bytes : List UInt8) (offset : Nat) (ws : List Nat) :
    (pieces bytes offset ws).flatten = (bytes.drop offset).take ws.sum := by
  induction ws generalizing offset with
  | nil => simp [pieces]
  | cons w ws ih =>
      rw [pieces, List.flatten_cons, ih, List.sum_cons, List.take_add, List.drop_drop]

theorem pieces_flatten (front : List UInt8) (segments : List (List UInt8)) (tail : List UInt8) :
    pieces (front ++ (segments.flatten ++ tail)) front.length (segments.map List.length) =
      segments := by
  induction segments generalizing front with
  | nil => rfl
  | cons s ss ih =>
      have hcut : ((front ++ ((s :: ss).flatten ++ tail)).drop front.length).take s.length = s := by
        rw [List.drop_left, List.flatten_cons, List.append_assoc, List.take_left]
      have hrest := ih (front ++ s)
      rw [List.length_append, List.append_assoc, ← List.append_assoc s] at hrest
      rw [List.map_cons, pieces, hcut, List.flatten_cons, hrest]

/-- The widths of the fields, that of the order byte first. -/
def widths : List Nat := [1,2,2,8,8,8,8,8,8,4,2,2]

/-- The bytes of the single fields. -/
def segments (h : Header) : List (List UInt8) :=
  [[markOf h.order], h.order.encode 2 h.version.toNat, h.order.encode 2 h.numBands.toNat,
    h.order.encode 8 h.scaleX.pattern, h.order.encode 8 h.scaleY.pattern,
    h.order.encode 8 h.originX.pattern, h.order.encode 8 h.originY.pattern,
    h.order.encode 8 h.skewX.pattern, h.order.encode 8 h.skewY.pattern,
    h.order.encode 4 (Word.pattern32 h.srid), h.order.encode 2 h.width.toNat,
    h.order.encode 2 h.height.toNat]

theorem flatten_segments (h : Header) : h.segments.flatten = h.bytes := by
  simp [segments, bytes]

theorem length_segments (h : Header) : h.segments.map List.length = widths := by
  simp [segments, widths]

theorem pieces_bytes (h : Header) (tail : List UInt8) :
    pieces (h.bytes ++ tail) 0 widths = h.segments := by
  have hp := pieces_flatten [] h.segments tail
  rwa [flatten_segments, length_segments] at hp

theorem orderAt_bytes (h : Header) (tail : List UInt8) : orderAt (h.bytes ++ tail) = h.order :=
  orderOf_markOf h.order

theorem toNat_mod_of_fits {n : Int} (hn : FitsUInt16 n) :
    ((n.toNat % 256 ^ (2 : Nat) : Nat) : Int) = n := by
  have h : n.toNat < 256 ^ (2 : Nat) := by omega
  rw [Nat.mod_eq_of_lt h]
  omega

theorem pattern_mod (d : Double) : Double.ofPattern (d.pattern % 256 ^ (8 : Nat)) = d := by
  have h : d.pattern < 256 ^ (8 : Nat) := d.pattern_lt
  rw [Nat.mod_eq_of_lt h, Double.ofPattern_pattern]

theorem signed32_mod {n : Int} (hn : FitsInt32 n) :
    Word.signed32 (Word.pattern32 n % 256 ^ (4 : Nat)) = n := by
  have h : Word.pattern32 n < 256 ^ (4 : Nat) := by
    unfold Word.pattern32
    omega
  rw [Nat.mod_eq_of_lt h]
  exact Word.signed32_pattern32 hn.1 (by omega)

/-- The bytes of a header whose integers fit spell that header. -/
theorem ofBytes_bytes {h : Header} (hf : h.Fits) (tail : List UInt8) :
    ofBytes (h.bytes ++ tail) = h := by
  have hp := pieces_bytes h tail
  simp only [pieces, widths, segments, Nat.zero_add, Nat.reduceAdd, List.cons.injEq, and_true]
    at hp
  obtain ⟨-,hversion,hbands,hsx,hsy,hox,hoy,hkx,hky,hsrid,hwidth,hheight⟩ := hp
  obtain ⟨fversion,fbands,fsrid,fwidth,fheight⟩ := hf
  simp only [ofBytes, fieldAt, orderAt_bytes, hversion, hbands, hsx, hsy, hox, hoy, hkx, hky,
    hsrid, hwidth, hheight, ByteOrder.decode_encode, pattern_mod]
  rw [toNat_mod_of_fits fversion, toNat_mod_of_fits fbands, toNat_mod_of_fits fwidth,
    toNat_mod_of_fits fheight, signed32_mod fsrid]

/-- The mark written for the order that a mark stands for. -/
def canonicalMark (mark : UInt8) : UInt8 :=
  if mark = 0 then 0 else 1

theorem markOf_orderOf (mark : UInt8) : markOf (orderOf mark) = canonicalMark mark := by
  unfold canonicalMark orderOf
  split <;> rfl

theorem encode_fieldAt {bytes : List UInt8} {offset width : Nat}
    (h : offset + width ≤ bytes.length) :
    (orderAt bytes).encode width (fieldAt bytes offset width) = (bytes.drop offset).take width := by
  have hl : ((bytes.drop offset).take width).length = width := by
    rw [List.length_take, List.length_drop]
    omega
  have he := (orderAt bytes).encode_decode ((bytes.drop offset).take width)
  rw [hl] at he
  exact he

theorem pattern_fieldAt (bytes : List UInt8) (offset : Nat) :
    (Double.ofPattern (fieldAt bytes offset 8)).pattern = fieldAt bytes offset 8 :=
  Double.pattern_ofPattern (fieldAt_lt bytes offset 8)

theorem pattern32_fieldAt (bytes : List UInt8) (offset : Nat) :
    Word.pattern32 (Word.signed32 (fieldAt bytes offset 4)) = fieldAt bytes offset 4 :=
  Word.pattern32_signed32 (fieldAt_lt bytes offset 4)

/-- Writing the header that a stream spells gives the stream's own pieces, the
first byte apart. -/
theorem segments_ofBytes {bytes : List UInt8} (h : byteSize ≤ bytes.length) :
    (ofBytes bytes).segments =
      [canonicalMark (bytes.headD 0)] :: (pieces bytes 1 widths.tail) := by
  simp only [byteSize] at h
  simp only [segments, ofBytes, pattern_fieldAt, pattern32_fieldAt, Int.toNat_natCast]
  rw [encode_fieldAt (by omega), encode_fieldAt (by omega), encode_fieldAt (by omega),
    encode_fieldAt (by omega), encode_fieldAt (by omega), encode_fieldAt (by omega),
    encode_fieldAt (by omega), encode_fieldAt (by omega), encode_fieldAt (by omega),
    encode_fieldAt (by omega), encode_fieldAt (by omega), orderAt, markOf_orderOf]
  rfl

end RasterWkb.Header
