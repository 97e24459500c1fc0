import RasterWkb.Proofs.HeaderBytes

/-!
# Headers written and read again, in both directions

A header is written if each of its integers fits into its field. Whatever bytes stand
behind, its 61 bytes read back as the header itself, unless the reader refuses its
version or its rotation on the way. Conversely a header that was read is written again
as the bytes that were consumed, with the canonical mark in front.
-/
namespace RasterWkb

/-- The number is zero, with either sign. -/
def Double.IsSignedZero (d : Double) : Prop :=
  d = ⟨0⟩ ∨ d = ⟨0x8000000000000000⟩

theorem Double.isZero_iff {d : Double} : d.isZero = true ↔ d.IsSignedZero := by
  have hlt := d.pattern_lt
  rw [isZero, magnitude, decide_eq_true_eq]
  constructor
  · intro h
    have hpattern : d.pattern = 0 ∨ d.pattern = 2 ^ (63 : Nat) := by omega
    rcases hpattern with h | h
    · left
      rw [← ofPattern_pattern d, h]
      rfl
    · right
      rw [← ofPattern_pattern d, h]
      rfl
  · rintro (rfl | rfl) <;> rfl

namespace Header
variable {h : Header} {tail data : List UInt8}

theorem unrotated_iff_isSignedZero (h : Header) :
    h.Unrotated ↔ h.skewX.IsSignedZero ∧ h.skewY.IsSignedZero := by
  rw [Unrotated, Double.isZero_iff, Double.isZero_iff]

/-- What reading the bytes of a header comes to when others stand behind them. The cases
exclude one another. -/
inductive ReadsBack (h : Header) (tail : List UInt8) (r : Run Header) : Prop
  | version (hversion : h.version ≠ 0)
      (hresult : r.result = .error (.decode (.unsupportedVersion h.version)))
      (hoffset : r.cursor.offset = 3)
  | rotation (hversion : h.version = 0)
      (hskew : ¬(h.skewX.IsSignedZero ∧ h.skewY.IsSignedZero))
      (hresult : r.result = .error (.decode (.unsupportedRotation h.skewX h.skewY)))
      (hoffset : r.cursor.offset = 53)
  | accepted (hversion : h.version = 0)
      (hskew : h.skewX.IsSignedZero ∧ h.skewY.IsSignedZero)
      (hresult : r.result = .ok h) (hoffset : r.cursor.offset = 61)
      (horder : r.cursor.order = some h.order) (hrest : r.cursor.rest = tail)

/-- The bytes of a header whose integers fit read back, whatever stands behind them. -/
theorem readsBack_bytes (hf : h.Fits) (tail : List UInt8) :
    h.ReadsBack tail (parse.run (.start (h.bytes ++ tail) none)) := by
  have hspell := ofBytes_bytes hf tail
  have hlen : 61 ≤ (Cursor.start (h.bytes ++ tail) none).remaining := by
    show 61 ≤ (h.bytes ++ tail).length
    rw [List.length_append, length_bytes]
    exact Nat.le_add_right _ _
  by_cases hversion : h.version = 0
  · by_cases hrot : h.Unrotated
    · have ha : Accepted (h.bytes ++ tail) := by
        refine ⟨hlen,?_,?_⟩
        · rw [hspell, hversion]
        · rwa [hspell]
      have hrun := parse_accepted (c := .start (h.bytes ++ tail) none) rfl ha
      rw [hrun]
      refine .accepted hversion ((unrotated_iff_isSignedZero h).mp hrot) ?_ rfl ?_ ?_
      · exact congrArg Except.ok hspell
      · exact congrArg some (orderAt_bytes h tail)
      · exact List.drop_left' h.length_bytes
    · have hrun := parse_rotation (c := .start (h.bytes ++ tail) none) rfl
        (by rw [Cursor.start, hspell, hversion]) (by omega)
        (by rw [Cursor.start, hspell]; exact hrot)
      rw [hrun]
      refine .rotation hversion
        (fun hskew => hrot ((unrotated_iff_isSignedZero h).mpr hskew)) ?_ rfl
      simp only [Cursor.start, hspell]
  · have hrun := parse_version (c := .start (h.bytes ++ tail) none) rfl (by omega)
      (by rw [Cursor.start, hspell]; exact hversion)
    rw [hrun]
    refine .version hversion ?_ rfl
    simp only [Cursor.start, hspell]

/-- Writing the header of a stream gives its first bytes, with the canonical mark. -/
theorem bytes_ofBytes (hlong : byteSize ≤ data.length) :
    (ofBytes data).bytes = canonicalMark (data.headD 0) :: (data.take 61).tail := by
  have hbehind := flatten_pieces data 1 widths.tail
  have htail : (data.take 61).tail = (data.drop 1).take widths.tail.sum := by
    rw [← List.drop_one, List.drop_take]
    rfl
  rw [← flatten_segments, segments_ofBytes hlong, List.flatten_cons, hbehind, List.singleton_append,
    htail]

/-- What was read is written again as it was found. -/
theorem encode?_of_parse (hok : (parse.run (.start data none)).result = .ok h) :
    (parse.run (.start data none)).cursor.offset = 61 ∧
      h.encode? = some (canonicalMark (data.headD 0) :: (data.take 61).tail) := by
  have ha : Accepted data := accepted_of_parse (c := .start data none) rfl hok
  have hrun : parse.run (.start data none) = _ := parse_accepted rfl ha
  rw [hrun] at hok ⊢
  obtain rfl : ofBytes data = h := Except.ok.inj hok
  constructor
  · rfl
  · rw [encode?, if_pos (fits_ofBytes data ha.version), bytes_ofBytes ha.long]

theorem encode?_eq_none_iff : h.encode? = none ↔ ¬h.Fits := by
  rw [encode?]
  split
  · next hf => exact iff_of_false (Option.some_ne_none _) (not_not.mpr hf)
  · next hf => exact iff_of_true rfl hf

/-- Headers and their bytes determine each other, as far as the reader goes. -/
theorem encode?_parse (h : Header) (tail data : List UInt8) :
    (h.encode? = none ↔
      ¬((∀ n ∈ [h.version, h.numBands, h.width, h.height], 0 ≤ n ∧ n ≤ 65535) ∧
        -2147483648 ≤ h.srid ∧ h.srid ≤ 2147483647)) ∧
    (∀ bytes, h.encode? = some bytes →
      bytes.length = 61 ∧ h.ReadsBack tail (parse.run (.start (bytes ++ tail) none))) ∧
    ∀ read, (parse.run (.start data none)).result = .ok read →
      (parse.run (.start data none)).cursor.offset = 61 ∧
        read.encode? = some (canonicalMark (data.headD 0) :: (data.take 61).tail) := by
  refine ⟨?_,?_,fun read => encode?_of_parse⟩
  · rw [encode?_eq_none_iff, not_iff_not]
    simp only [List.forall_mem_cons, List.not_mem_nil, false_implies, implies_true, and_true]
    constructor
    · rintro ⟨hversion,hbands,hsrid,hwidth,hheight⟩
      exact ⟨⟨hversion,hbands,hwidth,hheight⟩,hsrid⟩
    · rintro ⟨⟨hversion,hbands,hwidth,hheight⟩,hsrid⟩
      exact ⟨hversion,hbands,hsrid,hwidth,hheight⟩
  · intro bytes hbytes
    rw [encode?] at hbytes
    split at hbytes
    · next hf =>
        obtain rfl := Option.some.inj hbytes
        exact ⟨h.length_bytes,readsBack_bytes hf tail⟩
    · cases hbytes

end Header

end RasterWkb
