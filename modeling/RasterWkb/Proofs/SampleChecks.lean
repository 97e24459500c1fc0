import RasterWkb.Proofs.SampleBytes
import Mathlib.Data.List.Basic

/-!
# What the sample checks let pass

The checks see samples in the form of their common kind. For every kind but the mixed
one, what passes them is what is worth an integer from -128 to 255, and the form of the
kind changes nothing about that. A list is of the mixed kind when one of its integers
fits no word. That integer has no place among the samples of a record, but the checks
may let it pass; then the first sample without an integer of its own stops the writer.
-/
namespace RasterWkb

namespace Sample
variable {s : Sample} {d : Double} {n : Int}

/-- What a sample is worth decides whether it fits. -/
theorem fitsByte_congr {t : Sample} (hs : s.Is n) (ht : t.Is n) : s.FitsByte ↔ t.FitsByte := by
  constructor
  · rintro ⟨m,hm,hrange⟩
    rw [hm.unique hs] at hrange
    exact ⟨n,ht,hrange⟩
  · rintro ⟨m,hm,hrange⟩
    rw [hm.unique ht] at hrange
    exact ⟨n,hs,hrange⟩

/-- An integer and its double fit together, although the double of a large one may be another
integer. -/
theorem fitsByte_ofInt : (real (.ofInt n)).FitsByte ↔ (integer n).FitsByte := by
  constructor
  · intro h
    have hsmall := natAbs_lt_of_inRange (fitsByte_iff.mp h).2
    exact (fitsByte_congr (Double.is_ofInt hsmall) (integer_is n)).mp h
  · intro h
    obtain ⟨m,hm,hlow,hhigh⟩ := h
    have hsmall : n.natAbs < 2 ^ (53 : Nat) := by
      rw [BandRecord.sampleMin] at hlow
      rw [BandRecord.sampleMax] at hhigh
      have hmn := hm.unique (integer_is n)
      omega
    exact (fitsByte_congr (Double.is_ofInt hsmall) (integer_is n)).mpr ⟨m,hm,hlow,hhigh⟩

/-- The sample is an integer that fits no word of 64 bits, with or without a sign. -/
def Wordless : Sample → Prop
  | integer n => n < -2 ^ (63 : Nat) ∨ 2 ^ (64 : Nat) ≤ n
  | _ => False

/-- The sample has an integer part that fits a word with a sign. -/
def FitsWord (s : Sample) : Prop :=
  (∃ m e, s.exact = .finite m e) ∧ -2 ^ (63 : Nat) ≤ s.truncated ∧ s.truncated < 2 ^ (63 : Nat)

theorem FitsByte.fitsWord (h : s.FitsByte) : s.FitsWord := by
  obtain ⟨n,hn,hlow,hhigh⟩ := h
  rw [BandRecord.sampleMin] at hlow
  rw [BandRecord.sampleMax] at hhigh
  constructor
  · cases s with
    | flag b => exact ⟨_,_,rfl⟩
    | integer m => exact ⟨_,_,rfl⟩
    | real d =>
        rw [exact_real_eq_finite, ← exact_real_eq_nan]
        exact ⟨hn.exact_ne_nan,by rw [(is_real_iff.mp hn).2.1]; exact Bool.false_ne_true⟩
  · rw [hn.truncated_eq]
    omega

theorem Wordless.not_fitsWord (h : s.Wordless) : ¬s.FitsWord := by
  cases s with
  | flag b => exact absurd h id
  | integer n =>
      rintro ⟨-,hlow,hhigh⟩
      rw [Wordless] at h
      rw [truncated] at hlow hhigh
      omega
  | real d => exact absurd h id

theorem Wordless.not_inRange (h : s.Wordless) : ¬s.InRange := by
  intro hrange
  have hwhole : s.isWhole = true := by
    cases s with
    | flag b => rfl
    | integer n => rfl
    | real d => exact absurd h id
  exact h.not_fitsWord (fitsByte_iff.mpr ⟨hwhole,hrange⟩).fitsWord

end Sample

namespace ElementKind
variable {k : ElementKind} {s : Sample}

/-- A member of a list fits in the form of the list's kind when it fits as it was given. -/
theorem fitsByte_hold (hk : k.OfMembers) (hs : k.Takes s) :
    (k.hold s).FitsByte ↔ s.FitsByte := by
  rcases hold_cases hk hs with hheld | ⟨n,hn,hheld | ⟨-,hheld⟩⟩
  · rw [hheld]
  · rw [hheld]
    exact Sample.fitsByte_congr (Sample.integer_is n) hn
  · rw [hheld]
    exact Sample.fitsByte_ofInt.trans (Sample.fitsByte_congr (Sample.integer_is n) hn)

/-- Only doubles can fail to be whole in an array with a common kind. -/
theorem isWhole_hold (hmixed : k ≠ mixed) (hreal : ∀ p, k ≠ real p) :
    (k.hold s).isWhole = true := by
  cases k with
  | flag | signed | unsigned => cases s <;> rfl
  | real p => exact absurd rfl (hreal p)
  | mixed => exact absurd rfl hmixed

theorem join_eq_mixed {l : ElementKind} : k.join l = mixed ↔ k = mixed ∨ l = mixed := by
  cases k <;> cases l <;> simp [ElementKind.join]
  split <;> simp

theorem ofSample_eq_mixed : ofSample s = mixed ↔ s.Wordless := by
  cases s with
  | flag b => simp [ofSample, Sample.Wordless]
  | integer n =>
      simp only [ofSample, Sample.Wordless]
      split
      · simp
        omega
      · split
        · simp
          omega
        · simp
          omega
  | real d => simp [ofSample, Sample.Wordless]

theorem foldl_join_eq_mixed {ss : List Sample} :
    ss.foldl (fun kind s => kind.join (ofSample s)) k = mixed ↔
      k = mixed ∨ ∃ s ∈ ss, s.Wordless := by
  induction ss generalizing k with
  | nil => simp
  | cons s ss ih =>
      rw [List.foldl_cons, ih, join_eq_mixed, ofSample_eq_mixed, or_assoc]
      simp

/-- A list is of the mixed kind when an integer in it fits no word. -/
theorem ofList_eq_mixed {members : List Sample} :
    ofList members = mixed ↔ ∃ s ∈ members, s.Wordless := by
  cases members with
  | nil => simp [ofList]
  | cons s ss =>
      rw [ofList, foldl_join_eq_mixed, ofSample_eq_mixed]
      simp

end ElementKind

namespace BandRecord
variable {s : Sample} {samples : Samples} {members : List Sample}

/-! ### The integers of samples -/

theorem integerOf_of_fitsWord (h : s.FitsWord) : integerOf s = .ok s.truncated := by
  obtain ⟨hfinite,hlow,hhigh⟩ := h
  cases s with
  | flag b => rfl
  | integer n => exact if_pos ⟨hlow,hhigh⟩
  | real d =>
      rw [Sample.exact_real_eq_finite] at hfinite
      rw [integerOf, if_neg hfinite.1, if_neg hfinite.2]
      exact if_pos ⟨hlow,hhigh⟩

/-- Why a sample has no integer: a NaN, or too large. -/
def misfit (s : Sample) : EncodeFault :=
  if s.exact = .nan then .nanSample else .hugeSample

theorem integerOf_of_not_fitsWord (h : ¬s.FitsWord) : integerOf s = .error (misfit s) := by
  cases s with
  | flag b => exact absurd ⟨⟨_,_,rfl⟩,by cases b <;> decide⟩ h
  | integer n =>
      have hrange : ¬(-2 ^ (63 : Nat) ≤ n ∧ n < 2 ^ (63 : Nat)) := fun hn => h ⟨⟨_,_,rfl⟩,hn⟩
      have hexact : (Sample.integer n).exact ≠ .nan := by simp [Sample.exact, Exact.ofInt]
      rw [misfit, if_neg hexact]
      exact if_neg hrange
  | real d =>
      rw [integerOf, misfit]
      simp only [Sample.exact_real_eq_nan]
      split
      · rfl
      · next hnan =>
          split
          · rfl
          · next hinf =>
              exact if_neg fun hn => h ⟨Sample.exact_real_eq_finite.mpr ⟨hnan,hinf⟩,hn⟩

theorem mapM_integerOf_of_fitsWord (h : ∀ s ∈ members, s.FitsWord) :
    members.mapM integerOf = .ok (members.map Sample.truncated) := by
  induction members with
  | nil => rfl
  | cons s ss ih =>
      rw [List.mapM_cons, integerOf_of_fitsWord (h s List.mem_cons_self),
        ih fun u hu => h u (List.mem_cons_of_mem s hu)]
      rfl

/-- The first sample without an integer says why there is none. -/
theorem mapM_integerOf_misfit {words others : List Sample} (hwords : ∀ w ∈ words, w.FitsWord)
    (hs : ¬s.FitsWord) : (words ++ s :: others).mapM integerOf = .error (misfit s) := by
  rw [List.mapM_append, mapM_integerOf_of_fitsWord hwords, List.mapM_cons,
    integerOf_of_not_fitsWord hs]
  rfl

theorem all_fitWord_or_misfit (members : List Sample) :
    (∀ s ∈ members, s.FitsWord) ∨ ∃ words s others, members = words ++ s :: others ∧
      (∀ w ∈ words, w.FitsWord) ∧ ¬s.FitsWord := by
  induction members with
  | nil => exact .inl fun s hs => absurd hs List.not_mem_nil
  | cons s ss ih =>
      by_cases hs : s.FitsWord
      · rcases ih with hall | ⟨words,u,others,rfl,hwords,hu⟩
        · exact .inl (List.forall_mem_cons.mpr ⟨hs,hall⟩)
        · exact .inr ⟨s :: words,u,others,rfl,List.forall_mem_cons.mpr ⟨hs,hwords⟩,hu⟩
      · exact .inr ⟨[],s,ss,rfl,fun w hw => absurd hw List.not_mem_nil,hs⟩

/-! ### The checks -/

/-- How samples of the kinds other than the mixed one are refused. -/
inductive RefusedByChecks (samples : Samples) : Prop
  | fraction (h : payload samples = .error .fraction)
  | range (least greatest : Sample) (h : payload samples = .error (.sampleRange least greatest))

theorem checkRange_cases (kind : ElementKind) (elements : List Sample) :
    checkRange kind elements = .ok () ∨
      ∃ least greatest, checkRange kind elements = .error (.sampleRange least greatest) := by
  cases elements with
  | nil => exact .inl rfl
  | cons s ss =>
      rw [checkRange]
      split
      · exact .inr ⟨_,_,rfl⟩
      · exact .inl rfl

theorem isWhole_of_kind (hmixed : samples.kind ≠ .mixed) (hreal : ∀ p, samples.kind ≠ .real p) :
    ∀ s ∈ samples.elements, s.isWhole = true := by
  intro s hs
  obtain ⟨u,-,rfl⟩ := List.mem_map.mp hs
  exact ElementKind.isWhole_hold hmixed hreal

/-- The form of the kind changes nothing about what fits. -/
theorem elements_fitByte :
    (∀ s ∈ samples.elements, s.FitsByte) ↔ ∀ s ∈ samples.given, s.FitsByte := by
  cases samples with
  | array kind members => rfl
  | list members =>
      obtain ⟨hof,htakes⟩ := ElementKind.ofList_spec members
      rw [Samples.elements, List.forall_mem_map]
      exact forall₂_congr fun s hs => ElementKind.fitsByte_hold hof (htakes s hs)

/-- What fits passes the checks. -/
theorem payload_of_fitsByte (hfit : ∀ s ∈ samples.given, s.FitsByte) :
    payload samples = .ok (samples.given.map sampleByte) := by
  have hfits := elements_fitByte.mpr hfit
  have hwhole : samples.elements.all Sample.isWhole = true :=
    List.all_eq_true.mpr fun s hs => (Sample.fitsByte_iff.mp (hfits s hs)).1
  have hrange : checkRange samples.kind samples.elements = .ok () :=
    checkRange_of_inRange fun s hs => (Sample.fitsByte_iff.mp (hfits s hs)).2
  have hints := mapM_integerOf_of_fitsWord fun s hs => (hfits s hs).fitsWord
  have hpayload : payload samples = .ok ((samples.elements.map Sample.truncated).map wrap) := by
    simp only [payload, hwhole, hrange, hints, Bool.not_true, Bool.and_false, Bool.false_eq_true,
      if_false]
    rfl
  rw [hpayload, payload_eq hpayload]

/-- For every kind but the mixed one, what does not fit is found by the checks. -/
theorem refusedByChecks (hkind : samples.kind ≠ .mixed)
    (hmisfit : ¬∀ s ∈ samples.given, s.FitsByte) : RefusedByChecks samples := by
  rw [← elements_fitByte] at hmisfit
  by_cases hwhole : ∀ s ∈ samples.elements, s.isWhole = true
  · have hnotRange : checkRange samples.kind samples.elements ≠ .ok () := by
      intro hrange
      have hin := inRange_of_checkRange (fun s hs => exact_ne_nan_of_isWhole (hwhole s hs)) hrange
      exact hmisfit fun s hs => Sample.fitsByte_iff.mpr ⟨hwhole s hs,hin s hs⟩
    obtain ⟨least,greatest,hrange⟩ := (checkRange_cases _ _).resolve_left hnotRange
    apply RefusedByChecks.range least greatest
    simp only [payload, List.all_eq_true.mpr hwhole, hrange, Bool.not_true, Bool.and_false,
      Bool.false_eq_true, if_false]
    rfl
  · apply RefusedByChecks.fraction
    obtain ⟨p,hp⟩ : ∃ p, samples.kind = .real p := by
      by_contra hreal
      exact hwhole (isWhole_of_kind hkind fun p hp => hreal ⟨p,hp⟩)
    have hreal : samples.isReal = true := by rw [Samples.isReal, hp]
    have hsome : samples.elements.all Sample.isWhole = false :=
      Bool.eq_false_iff.mpr fun hall => hwhole (List.all_eq_true.mp hall)
    simp only [payload, hreal, hsome, Bool.not_false, Bool.and_self, if_true]

/-! ### Lists of the mixed kind -/

/-- Such a list has a first sample without an integer. -/
theorem exists_misfit (hkind : (Samples.list members).kind = .mixed) :
    ∃ words s others, members = words ++ s :: others ∧ (∀ w ∈ words, w.FitsWord) ∧
      ¬s.FitsWord := by
  obtain ⟨s,hs,hwordless⟩ := ElementKind.ofList_eq_mixed.mp hkind
  exact (all_fitWord_or_misfit members).resolve_left fun hall =>
    hwordless.not_fitsWord (hall s hs)

/-- That sample is the reason when the range check finds none. -/
theorem payload_of_mixed {words others : List Sample}
    (hkind : (Samples.list (words ++ s :: others)).kind = .mixed)
    (hwords : ∀ w ∈ words, w.FitsWord) (hs : ¬s.FitsWord) :
    payload (.list (words ++ s :: others)) =
      (checkRange .mixed (words ++ s :: others)).bind fun _ => .error (misfit s) := by
  have helements : (Samples.list (words ++ s :: others)).elements = words ++ s :: others := by
    rw [Samples.elements, hkind]
    exact List.map_id _
  have hreal : (Samples.list (words ++ s :: others)).isReal = false := by
    rw [Samples.isReal, hkind]
  simp only [payload, hreal, helements, hkind, Bool.false_and, Bool.false_eq_true, if_false,
    mapM_integerOf_misfit hwords hs]
  rfl

/-- Samples that do not all fit as they were given are never turned into bytes. -/
theorem payload_fault (htyped : ∀ elements, samples ≠ .array .mixed elements)
    (hmisfit : ¬∀ s ∈ samples.given, s.FitsByte) : ∃ fault, payload samples = .error fault := by
  by_cases hkind : samples.kind = .mixed
  · cases samples with
    | array kind members => exact absurd (congrArg (Samples.array · members) hkind) (htyped members)
    | list members =>
        obtain ⟨words,s,others,rfl,hwords,hs⟩ := exists_misfit hkind
        rw [payload_of_mixed hkind hwords hs]
        rcases checkRange_cases .mixed (words ++ s :: others) with h | ⟨least,greatest,h⟩
        · exact ⟨misfit s,by rw [h]; rfl⟩
        · exact ⟨.sampleRange least greatest,by rw [h]; rfl⟩
  · cases refusedByChecks hkind hmisfit with
    | fraction h => exact ⟨_,h⟩
    | range least greatest h => exact ⟨_,h⟩

end BandRecord

/-! ### Pixels as samples -/

/-- The sample of a byte of a plane. -/
def Sample.ofByte (b : UInt8) : Sample :=
  .integer b.toNat

theorem Sample.fitsByte_ofByte (b : UInt8) : (ofByte b).FitsByte := by
  have hb : b.toNat < 256 := b.toNat_lt
  refine ⟨b.toNat,integer_is b.toNat,?_,?_⟩
  · rw [BandRecord.sampleMin]
    omega
  · rw [BandRecord.sampleMax]
    omega

/-- The samples of a plane, as a list of integers or as an array of bytes. -/
def Samples.ofPlane (listed : Bool) (plane : List UInt8) : Samples :=
  if listed then .list (plane.map .ofByte) else .array .unsigned (plane.map .ofByte)

theorem Samples.given_ofPlane (listed : Bool) (plane : List UInt8) :
    (ofPlane listed plane).given = plane.map .ofByte := by
  cases listed with
  | true => rfl
  | false =>
      simp only [ofPlane, Bool.false_eq_true, if_false, given, List.map_map]
      rfl

namespace BandRecord

theorem wrap_toNat (b : UInt8) : wrap b.toNat = b := by
  have hb : b.toNat < 256 := b.toNat_lt
  apply UInt8.toNat_inj.mp
  rw [wrap, UInt8.toNat_ofNat']
  omega

/-- The pixels of a plane are written as they are. -/
theorem payload_ofPlane (listed : Bool) (plane : List UInt8) :
    payload (.ofPlane listed plane) = .ok plane := by
  have hfit : ∀ s ∈ (Samples.ofPlane listed plane).given, s.FitsByte := by
    rw [Samples.given_ofPlane, List.forall_mem_map]
    exact fun b _ => Sample.fitsByte_ofByte b
  have hbytes : (Samples.ofPlane listed plane).given.map sampleByte = plane := by
    rw [Samples.given_ofPlane, List.map_map]
    exact (List.map_congr_left fun b _ => wrap_toNat b).trans (List.map_id plane)
  rw [payload_of_fitsByte hfit, hbytes]

end BandRecord

end RasterWkb
