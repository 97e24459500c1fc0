import RasterWkb.Proofs.AcceptedBands

/-!
# Samples that the range check overlooks

A list of the mixed kind is not tested for whole numbers, and its least and greatest are
found by comparing one sample after another. A NaN compares with nothing, so it takes
the place of whatever was found in front of it and gives way to whatever comes next:
the range check knows only what stands behind the last NaN. The whole list then meets
the conversion to machine integers, which stops at the first sample that has none. If
that is a NaN, it is told as a problem with the samples; if it is a number too large, the
conversion overflows, which nothing announces.

These are the only lists whose refusal is not one of the announced ones.
-/
namespace RasterWkb

/-- The faults that stand for a descriptor, a nodata value or samples that cannot be encoded. -/
inductive EncodeFault.Announced : EncodeFault → Prop
  | bandType (code : Int) : Announced (.bandType code)
  | nodataRange (value : Int) : Announced (.nodataRange value)
  | fraction : Announced .fraction
  | sampleRange (least greatest : Sample) : Announced (.sampleRange least greatest)
  | nanSample : Announced .nanSample

/-! ### What a NaN does to the choice between samples -/

namespace Sample
variable {nan first : Sample} {front behind : List Sample}

/-- A NaN takes the place of what was chosen in front of it. -/
theorem least_append_nan (hnan : nan.exact = .nan) :
    least false first (front ++ nan :: behind) = least false nan behind := by
  simp only [least, List.foldl_append, List.foldl_cons, hnan, Bool.false_eq_true, if_false,
    Exact.le_nan]

theorem greatest_append_nan (hnan : nan.exact = .nan) :
    greatest false first (front ++ nan :: behind) = greatest false nan behind := by
  simp only [greatest, List.foldl_append, List.foldl_cons, hnan, Bool.false_eq_true, if_false,
    Exact.nan_le]

/-- A NaN gives way to the next sample. -/
theorem least_nan_cons (hnan : nan.exact = .nan) :
    least false nan (first :: behind) = least false first behind := by
  simp only [least, List.foldl_cons, hnan, Bool.false_eq_true, if_false, Exact.nan_le]

theorem greatest_nan_cons (hnan : nan.exact = .nan) :
    greatest false nan (first :: behind) = greatest false first behind := by
  simp only [greatest, List.foldl_cons, hnan, Bool.false_eq_true, if_false, Exact.le_nan]

end Sample

namespace BandRecord
variable {nan : Sample} {front behind members : List Sample}

theorem checkRange_congr {s t : Sample} {ss ts : List Sample}
    (hleast : Sample.least false s ss = Sample.least false t ts)
    (hgreatest : Sample.greatest false s ss = Sample.greatest false t ts) :
    checkRange .mixed (s :: ss) = checkRange .mixed (t :: ts) := by
  simp only [checkRange, ElementKind.takesLast, hleast, hgreatest]
  rfl

/-- The range check of a mixed list knows only what stands behind a NaN. -/
theorem checkRange_behind_nan (hnan : nan.exact = .nan) :
    checkRange .mixed (front ++ nan :: behind) = checkRange .mixed behind := by
  have hfront : checkRange .mixed (front ++ nan :: behind) = checkRange .mixed (nan :: behind) := by
    cases front with
    | nil => rfl
    | cons s ss =>
        exact checkRange_congr (Sample.least_append_nan hnan) (Sample.greatest_append_nan hnan)
  rw [hfront]
  cases behind with
  | nil =>
      simp only [checkRange, Sample.least, Sample.greatest, List.foldl_nil, hnan, Exact.lt,
        Exact.nan_le, Exact.le_nan, Bool.false_and, Bool.or_self, Bool.false_eq_true, if_false]
  | cons s ss =>
      exact checkRange_congr (Sample.least_nan_cons hnan) (Sample.greatest_nan_cons hnan)

/-- Either no sample is a NaN, or one of them is the last. -/
theorem exists_last_nan (members : List Sample) :
    (∀ s ∈ members, s.exact ≠ .nan) ∨ ∃ front nan behind, members = front ++ nan :: behind ∧
      nan.exact = .nan ∧ ∀ s ∈ behind, s.exact ≠ .nan := by
  induction members with
  | nil => exact .inl fun s hs => absurd hs List.not_mem_nil
  | cons s ss ih =>
      rcases ih with hall | ⟨front,nan,behind,rfl,hnan,hbehind⟩
      · by_cases hs : s.exact = .nan
        · exact .inr ⟨[],s,ss,rfl,hs,hall⟩
        · exact .inl (List.forall_mem_cons.mpr ⟨hs,hall⟩)
      · exact .inr ⟨s :: front,nan,behind,rfl,hnan,hbehind⟩

/-- Some NaN has nothing behind it that the range check would find. -/
def Unbounded (members : List Sample) : Prop :=
  ∃ front nan behind, members = front ++ nan :: behind ∧ nan.exact = .nan ∧
    ∀ s ∈ behind, s.InRange

theorem checkRange_mixed_ok :
    checkRange .mixed members = .ok () ↔ (∀ s ∈ members, s.InRange) ∨ Unbounded members := by
  constructor
  · intro hok
    rcases exists_last_nan members with hall | ⟨front,nan,behind,rfl,hnan,hbehind⟩
    · exact .inl (inRange_of_checkRange hall hok)
    · rw [checkRange_behind_nan hnan] at hok
      exact .inr ⟨front,nan,behind,rfl,hnan,inRange_of_checkRange hbehind hok⟩
  · rintro (hall | ⟨front,nan,behind,rfl,hnan,hbehind⟩)
    · exact checkRange_of_inRange hall
    · rw [checkRange_behind_nan hnan]
      exact checkRange_of_inRange hbehind

/-! ### The lists that overflow -/

/-- Samples that the checks let pass although one of them is too large. -/
structure Overflowing (members : List Sample) : Prop where
  /-- An integer that fits no word makes the list a mixed one. -/
  wordless : ∃ s ∈ members, s.Wordless
  unbounded : Unbounded members
  /-- The first sample without a machine integer is not a NaN. -/
  huge : ∃ words s others, members = words ++ s :: others ∧ (∀ w ∈ words, w.FitsWord) ∧
    ¬s.FitsWord ∧ s.exact ≠ .nan

theorem Overflowing.payload_eq (h : Overflowing members) :
    payload (.list members) = .error .hugeSample := by
  obtain ⟨hwordless,hunbounded,words,s,others,rfl,hwords,hs,hnan⟩ := h
  rw [payload_of_mixed (ElementKind.ofList_eq_mixed.mpr hwordless) hwords hs,
    checkRange_mixed_ok.mpr (.inr hunbounded), misfit, if_neg hnan]
  rfl

/-- The samples of a mixed list are refused in an announced way, unless they overflow. -/
theorem fault_of_mixed (hkind : (Samples.list members).kind = .mixed)
    (h : ¬Overflowing members) :
    ∃ fault, EncodeFault.Announced fault ∧ payload (.list members) = .error fault := by
  have hwordless := ElementKind.ofList_eq_mixed.mp hkind
  obtain ⟨words,s,others,rfl,hwords,hs⟩ := exists_misfit hkind
  rw [payload_of_mixed hkind hwords hs]
  rcases checkRange_cases .mixed (words ++ s :: others) with hrange | ⟨least,greatest,hrange⟩
  · have hunbounded : Unbounded (words ++ s :: others) := by
      obtain ⟨u,hu,hword⟩ := hwordless
      exact (checkRange_mixed_ok.mp hrange).resolve_left fun hall => hword.not_inRange (hall u hu)
    have hnan : s.exact = .nan := by
      by_contra hnan
      exact h ⟨hwordless,hunbounded,words,s,others,rfl,hwords,hs,hnan⟩
    rw [hrange, misfit, if_pos hnan]
    exact ⟨_,.nanSample,rfl⟩
  · rw [hrange]
    exact ⟨_,.sampleRange least greatest,rfl⟩

theorem fault_of_misfit (hmisfit : ¬∀ s ∈ (Samples.list members).given, s.FitsByte)
    (h : ¬Overflowing members) :
    ∃ fault, EncodeFault.Announced fault ∧ payload (.list members) = .error fault := by
  by_cases hkind : (Samples.list members).kind = .mixed
  · exact fault_of_mixed hkind h
  · cases refusedByChecks hkind hmisfit with
    | fraction h => exact ⟨_,.fraction,h⟩
    | range least greatest h => exact ⟨_,.sampleRange least greatest,h⟩

/-- A band whose list of samples ends in an overflow. -/
structure Overflows (d : Descriptor) (nodata : Int) (members : List Sample) : Prop where
  online : d.isOffline = false
  code : 0 ≤ d.code ∧ d.code ≤ 4
  nodata : sampleMin ≤ nodata ∧ nodata ≤ sampleMax
  samples : Overflowing members

theorem Overflows.not_encodable {d : Descriptor} {nodata : Int} (h : Overflows d nodata members) :
    ¬Encodable d nodata (.list members) := by
  intro hencodable
  obtain ⟨s,hs,hword⟩ := h.samples.wordless
  exact hword.not_fitsWord (hencodable.samples s hs).fitsWord

theorem Overflows.encode_eq {d : Descriptor} {nodata : Int} (h : Overflows d nodata members) :
    encode d nodata (.list members) = .error .hugeSample := by
  obtain ⟨kind,hencode⟩ := encode_of_payload (.list members)
    (isWritable_iff_code.mpr ⟨h.online,h.code⟩) h.nodata
  rw [hencode, h.samples.payload_eq]
  rfl

theorem announced_of_not_overflows {d : Descriptor} {nodata : Int}
    (hencodable : ¬Encodable d nodata (.list members)) (h : ¬Overflows d nodata members) :
    ∃ fault, EncodeFault.Announced fault ∧ encode d nodata (.list members) = .error fault := by
  rcases refusal_cases hencodable with hfault | hfault | ⟨hd,hn,hmisfit⟩
  · exact ⟨_,.bandType d.code,hfault⟩
  · exact ⟨_,.nodataRange nodata,hfault⟩
  · obtain ⟨honline,hcode⟩ := isWritable_iff_code.mp hd
    have hsamples : ¬Overflowing members := fun hover => h ⟨honline,hcode,hn,hover⟩
    obtain ⟨fault,hfault,hpayload⟩ := fault_of_misfit hmisfit hsamples
    obtain ⟨kind,hencode⟩ := encode_of_payload (.list members) hd hn
    rw [hpayload] at hencode
    exact ⟨fault,hfault,hencode⟩

/-- A band that cannot be encoded is refused in an announced way, except for the bands that
overflow; none of those can be encoded, and only they end in an overflow. -/
theorem encode_refused (d : Descriptor) (nodata : Int) (members : List Sample) :
    (¬Encodable d nodata (.list members) → ¬Overflows d nodata members →
        ∃ fault, EncodeFault.Announced fault ∧ encode d nodata (.list members) = .error fault) ∧
      (Overflows d nodata members → ¬Encodable d nodata (.list members)) ∧
      (encode d nodata (.list members) = .error .hugeSample ↔ Overflows d nodata members) := by
  refine ⟨announced_of_not_overflows,Overflows.not_encodable,?_,Overflows.encode_eq⟩
  intro hencode
  by_contra hoverflows
  by_cases hencodable : Encodable d nodata (.list members)
  · obtain ⟨record,hrecord⟩ := hencodable.encode_ok
    rw [hencode] at hrecord
    cases hrecord
  · obtain ⟨fault,hfault,h⟩ := announced_of_not_overflows hencodable hoverflows
    rw [hencode] at h
    cases h
    cases hfault

/-- A NaN behind 2^70 hides it from the range check. -/
theorem encode_hiddenInteger :
    let samples : Samples := .list [.integer (2 ^ (70 : Nat)), .real ⟨0x7FF8000000000000⟩]
    ¬Encodable ⟨4, false, false, false⟩ 0 samples ∧
      encode ⟨4, false, false, false⟩ 0 samples = .error .hugeSample ∧
      ¬EncodeFault.Announced .hugeSample := by
  refine ⟨fun h => ?_,by decide +kernel,nofun⟩
  have hword : (Sample.integer (2 ^ (70 : Nat))).Wordless := .inr (by decide)
  exact hword.not_fitsWord (h.samples _ List.mem_cons_self).fitsWord

end BandRecord

end RasterWkb
