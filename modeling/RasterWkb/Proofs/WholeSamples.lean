import RasterWkb.Proofs.ExactOrder

/-!
# Samples that are worth an integer

A sample is worth an integer when neither of the two is below the other. Flags are
worth 0 or 1, both zeros are worth 0, and a number with a fraction, an infinity or
a NaN is worth no integer. For doubles this is what the test for whole numbers and
the dropping of the fraction decide together, apart from infinities, which the test
lets pass.
-/
namespace RasterWkb

/-- Over a common unit, a finite value and an integer are two integers. -/
theorem Exact.finite_antisymm_ofInt {m e n : Int} :
    (finite m e).le (ofInt n) = true ∧ (ofInt n).le (finite m e) = true ↔
      m * 2 ^ e.toNat = n * 2 ^ (-e).toNat := by
  have hvalue : (e - min e 0).toNat = e.toNat := by omega
  have hint : (0 - min e 0).toNat = (-e).toNat := by omega
  rw [ofInt, le_finite (u := min e 0) (by omega) (by omega),
    le_finite (u := min e 0) (by omega) (by omega), hvalue, hint, decide_eq_true_eq,
    decide_eq_true_eq]
  exact Int.le_antisymm_iff.symm

namespace Sample

/-- The sample is worth the integer. -/
def Is (s : Sample) (n : Int) : Prop :=
  s.exact.le (.ofInt n) = true ∧ (Exact.ofInt n).le s.exact = true

/-- The sample is worth an integer that fits a sample byte. -/
def FitsByte (s : Sample) : Prop :=
  ∃ n, s.Is n ∧ BandRecord.sampleMin ≤ n ∧ n ≤ BandRecord.sampleMax

variable {s : Sample} {d : Double} {m n : Int}

theorem Is.unique (hm : s.Is m) (hn : s.Is n) : m = n := by
  have hle : m ≤ n := by
    have h := Exact.le_trans hm.2 hn.1
    rwa [Exact.le_ofInt, decide_eq_true_eq] at h
  have hge : n ≤ m := by
    have h := Exact.le_trans hn.2 hm.1
    rwa [Exact.le_ofInt, decide_eq_true_eq] at h
  exact Int.le_antisymm hle hge

theorem Is.exact_ne_nan (h : s.Is n) : s.exact ≠ .nan := by
  intro hnan
  rw [Is, hnan] at h
  cases h.1

theorem Is.inRange_iff (h : s.Is n) :
    s.InRange ↔ BandRecord.sampleMin ≤ n ∧ n ≤ BandRecord.sampleMax := by
  constructor
  · rintro ⟨hlow,hhigh⟩
    have hlow := Exact.le_trans hlow h.1
    have hhigh := Exact.le_trans h.2 hhigh
    rw [Exact.le_ofInt, decide_eq_true_eq] at hlow hhigh
    exact ⟨hlow,hhigh⟩
  · rintro ⟨hlow,hhigh⟩
    constructor
    · exact Exact.le_trans (by rwa [Exact.le_ofInt, decide_eq_true_eq]) h.2
    · exact Exact.le_trans h.1 (by rwa [Exact.le_ofInt, decide_eq_true_eq])

theorem is_of_exact (h : s.exact = .ofInt n) : s.Is n := by
  have hself : (Exact.ofInt n).le (.ofInt n) = true := by
    rw [Exact.le_ofInt]
    exact decide_eq_true (Int.le_refl n)
  rw [Is, h]
  exact ⟨hself,hself⟩

theorem flag_is (b : Bool) : (flag b).Is (if b then 1 else 0) := is_of_exact rfl

theorem integer_is (n : Int) : (integer n).Is n := is_of_exact rfl

theorem exact_real_eq_nan : (real d).exact = .nan ↔ d.isNaN = true := by
  rw [exact]
  split
  · next hnan => simp [hnan]
  · next hnan =>
      simp only [hnan]
      split <;> simp

theorem exact_real_eq_finite :
    (∃ m e, (real d).exact = .finite m e) ↔ ¬d.isNaN = true ∧ ¬d.isInfinite = true := by
  rw [exact]
  split
  · next hnan => simp [hnan]
  · next hnan =>
      split
      · next hinf => simp [hinf]
      · next hinf => simp [hnan, hinf]

theorem exact_real_of_finite (hnan : ¬d.isNaN = true) (hinf : ¬d.isInfinite = true) :
    (real d).exact =
      .finite (if d.isNegative then -Int.ofNat d.parts.1 else Int.ofNat d.parts.1) d.parts.2 := by
  rw [exact, if_neg hnan, if_neg hinf]

/-- A number is a multiple of a power of two when no remainder is dropped. -/
theorem multiple_iff (a k : Nat) :
    (a : Int) = n * 2 ^ k ↔ a % 2 ^ k = 0 ∧ (a : Int) / 2 ^ k = n := by
  have hpos : (0 : Int) < 2 ^ k := Int.pow_pos (by decide)
  have hdiv := Int.mul_ediv_add_emod (a : Int) (2 ^ k)
  have hrem : a % 2 ^ k = 0 ↔ (a : Int) % 2 ^ k = 0 := by
    rw [← Int.natCast_inj, Int.natCast_emod, Int.natCast_pow]
    rfl
  rw [hrem]
  constructor
  · intro h
    rw [h]
    exact ⟨Int.mul_emod_left n _,Int.mul_ediv_cancel n (Int.ne_of_gt hpos)⟩
  · rintro ⟨hzero,rfl⟩
    rw [hzero, Int.add_zero, Int.mul_comm] at hdiv
    exact hdiv.symm

/-- A finite double is worth an integer when it has no fraction to drop. -/
theorem is_real_iff :
    (real d).Is n ↔ d.isWhole = true ∧ d.isInfinite = false ∧ d.truncate = n := by
  by_cases hnan : d.isNaN = true
  · have hwhole : d.isWhole = false := by rw [Double.isWhole, if_pos hnan]
    rw [hwhole, Is, exact, if_pos hnan]
    simp
  by_cases hinf : d.isInfinite = true
  · rw [hinf, Is, exact, if_neg hnan, if_pos hinf, Exact.ofInt]
    simp
  have hfinite : d.isInfinite = false := Bool.not_eq_true _ ▸ hinf
  rw [Is, exact_real_of_finite hnan hinf, Exact.finite_antisymm_ofInt, Double.isWhole, if_neg hnan,
    if_neg hinf, Double.truncate, hfinite]
  generalize d.parts = p
  obtain ⟨mantissa,e⟩ := p
  simp only [Bool.or_eq_true, decide_eq_true_eq, true_and, Int.ofNat_eq_natCast]
  -- The sign is moved to the integer, so that both signs are one case of multiples.
  by_cases he : 0 ≤ e
  · have hshift : (-e).toNat = 0 := by omega
    simp only [he, hshift, Int.pow_zero, Int.mul_one, true_or, true_and, if_true]
    split
    · rw [Int.neg_mul]
    · rfl
  · have hshift : e.toNat = 0 := by omega
    simp only [he, hshift, Int.pow_zero, Int.mul_one, false_or, if_false]
    split
    · rw [Int.neg_eq_comm, ← Int.neg_mul, eq_comm, multiple_iff]
      exact and_congr_right fun _ => eq_comm.trans Int.neg_eq_comm
    · exact multiple_iff mantissa _

/-- A sample in range is finite. -/
theorem InRange.not_isInfinite (h : (real d).InRange) : d.isInfinite = false := by
  refine Bool.eq_false_iff.mpr fun hinf => ?_
  obtain ⟨hlow,hhigh⟩ := h
  have hnan : ¬d.isNaN = true := by
    rw [Double.isInfinite, decide_eq_true_eq] at hinf
    rw [Double.isNaN, hinf, decide_eq_true_eq]
    exact Nat.lt_irrefl _
  rw [exact, if_neg hnan, if_pos hinf, Exact.ofInt] at hlow hhigh
  rw [Exact.finite_le_infinite, Bool.not_eq_true'] at hlow
  rw [Exact.infinite_le_finite, hlow] at hhigh
  cases hhigh

/-- The test for whole numbers and the range check together find the samples that fit. -/
theorem fitsByte_iff : s.FitsByte ↔ s.isWhole = true ∧ s.InRange := by
  constructor
  · rintro ⟨n,hn,hrange⟩
    constructor
    · cases s with
      | flag b => rfl
      | integer m => rfl
      | real d => exact (is_real_iff.mp hn).1
    · exact hn.inRange_iff.mpr hrange
  · rintro ⟨hwhole,hrange⟩
    obtain ⟨n,hn⟩ : ∃ n, s.Is n := by
      cases s with
      | flag b => exact ⟨_,flag_is b⟩
      | integer m => exact ⟨m,integer_is m⟩
      | real d => exact ⟨d.truncate,is_real_iff.mpr ⟨hwhole,hrange.not_isInfinite,rfl⟩⟩
    exact ⟨n,hn,hn.inRange_iff.mp hrange⟩

end Sample

end RasterWkb
