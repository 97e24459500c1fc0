import RasterWkb.Proofs.WholeSamples

/-!
# Integers held as doubles

An integer below 2^53 is held exactly: its double is worth that integer. The
double of a larger integer may be another one, but it is at least 2^52 in size,
which is far outside the range of sample bytes.
-/
namespace RasterWkb

namespace Double
variable {negative : Bool} {p : Nat}

theorem pattern_ofMagnitude (hp : p < 2 ^ (63 : Nat)) :
    (ofMagnitude negative p).pattern = if negative then 2 ^ (63 : Nat) + p else p := by
  rw [ofMagnitude, pattern_ofPattern]
  split <;> omega

theorem magnitude_ofMagnitude (hp : p < 2 ^ (63 : Nat)) :
    (ofMagnitude negative p).magnitude = p := by
  rw [magnitude, pattern_ofMagnitude hp]
  split <;> omega

theorem isNegative_ofMagnitude (hp : p < 2 ^ (63 : Nat)) :
    (ofMagnitude negative p).isNegative = negative := by
  rw [isNegative, pattern_ofMagnitude hp]
  cases negative with
  | false => exact decide_eq_false (by rw [if_neg Bool.false_ne_true]; omega)
  | true => exact decide_eq_true (by rw [if_pos rfl]; omega)

/-- A magnitude with an exponent is split into a mantissa with its leading bit and a power. -/
theorem parts_ofMagnitude {e f : Nat} (hlow : 2 ^ (52 : Nat) ≤ f) (hhigh : f < 2 ^ (53 : Nat))
    (hp : e * 2 ^ (52 : Nat) + f < 2 ^ (63 : Nat)) :
    (ofMagnitude negative (e * 2 ^ (52 : Nat) + f)).parts = (f, (e : Int) - 1074) := by
  have hexp : (e * 2 ^ (52 : Nat) + f) / 2 ^ (52 : Nat) = e + 1 := by omega
  have hfrac : (e * 2 ^ (52 : Nat) + f) % 2 ^ (52 : Nat) + 2 ^ (52 : Nat) = f := by omega
  have hne : e + 1 ≠ 0 := by omega
  simp only [parts, magnitude_ofMagnitude hp, hexp, if_neg hne, hfrac, Prod.mk.injEq, true_and,
    Int.ofNat_eq_natCast]
  omega

/-! ### Integers that fit the mantissa -/

/-- The mantissa of a small integer is the integer, shifted to where its leading bit belongs. -/
theorem exact_ofInt_of_lt {n : Int} (hz : n ≠ 0) (hn : n.natAbs < 2 ^ (53 : Nat)) :
    (Sample.real (ofInt n)).exact =
      .finite (n * 2 ^ (52 - n.natAbs.log2)) ((n.natAbs.log2 : Int) - 52) := by
  have hm : n.natAbs ≠ 0 := Int.natAbs_ne_zero.mpr hz
  have hlog : n.natAbs.log2 < 53 := (Nat.log2_lt hm).mpr hn
  obtain ⟨hlow,hhigh⟩ := normalized hm hn
  have hsmall : nearestPattern n.natAbs 0 < infinityPattern := nearestPattern_of_lt hn
  have hp : nearestPattern n.natAbs 0 < 2 ^ (63 : Nat) := Nat.lt_trans hsmall (by decide)
  have hd : ofInt n = ofMagnitude (decide (n < 0)) (nearestPattern n.natAbs 0) := by
    rw [ofInt, nearest, Nat.min_eq_left (Nat.le_of_lt hsmall)]
  have hmag : (ofInt n).magnitude = nearestPattern n.natAbs 0 := by
    rw [hd, magnitude_ofMagnitude hp]
  have hnan : ¬(ofInt n).isNaN = true := by
    rw [isNaN, hmag, decide_eq_true_eq]
    exact Nat.not_lt.mpr (Nat.le_of_lt hsmall)
  have hinf : ¬(ofInt n).isInfinite = true := by
    rw [isInfinite, hmag, decide_eq_true_eq]
    exact Nat.ne_of_lt hsmall
  have hsign : (ofInt n).isNegative = decide (n < 0) := by
    rw [hd, isNegative_ofMagnitude hp]
  have hparts : (ofInt n).parts =
      (n.natAbs * 2 ^ (52 - n.natAbs.log2), (n.natAbs.log2 : Int) - 52) := by
    rw [nearestPattern_eq hm hn] at hd hp
    rw [hd, parts_ofMagnitude hlow hhigh hp, Prod.mk.injEq]
    exact ⟨rfl,by omega⟩
  rw [Sample.exact_real_of_finite hnan hinf, hparts, hsign]
  congr 1
  simp only [decide_eq_true_eq, Int.ofNat_eq_natCast, Int.natCast_mul, Int.natCast_pow,
    Int.cast_ofNat_Int]
  split
  · next hneg =>
      have habs : -(n.natAbs : Int) = n := by omega
      rw [← Int.neg_mul, habs]
  · next hpos =>
      have habs : (n.natAbs : Int) = n := by omega
      rw [habs]

/-- The double of a small integer is worth that integer. -/
theorem is_ofInt {n : Int} (hn : n.natAbs < 2 ^ (53 : Nat)) : (Sample.real (ofInt n)).Is n := by
  by_cases hz : n = 0
  · subst hz
    have hparts : (ofInt 0).parts = (0, -1074) := by decide
    rw [Sample.Is, Sample.exact_real_of_finite (by decide) (by decide), Exact.finite_antisymm_ofInt,
      hparts]
    simp only [Int.ofNat_eq_natCast, Int.natCast_zero, Int.neg_zero, ite_self, Int.zero_mul]
  have hlog : n.natAbs.log2 < 53 := (Nat.log2_lt (Int.natAbs_ne_zero.mpr hz)).mpr hn
  have hvalue : ((n.natAbs.log2 : Int) - 52).toNat = 0 := by omega
  have hshift : (-((n.natAbs.log2 : Int) - 52)).toNat = 52 - n.natAbs.log2 := by omega
  rw [Sample.Is, exact_ofInt_of_lt hz hn, Exact.finite_antisymm_ofInt, hvalue, hshift, Int.pow_zero,
    Int.mul_one]

/-! ### Larger integers -/

theorem le_nearestPattern {m : Nat} (hm : 2 ^ (53 : Nat) ≤ m) :
    1076 * 2 ^ (52 : Nat) ≤ nearestPattern m 0 := by
  have hne : m ≠ 0 := by omega
  have hlog : 53 ≤ m.log2 := (Nat.le_log2 hne).mpr hm
  have hunit : max ((0 : Int) + m.log2 + 1 - (53 : Nat)) (-1074) = (m.log2 : Int) - 52 := by omega
  have hshift : (((m.log2 : Int) - 52) - 0).toNat = m.log2 - 52 := by omega
  have hbase : 1075 ≤ ((m.log2 : Int) - 52 + 1074).toNat := by omega
  have hquot : 2 ^ (52 : Nat) ≤ m / 2 ^ (m.log2 - 52) := by
    apply (Nat.le_div_iff_mul_le (Nat.two_pow_pos _)).mpr
    calc 2 ^ (52 : Nat) * 2 ^ (m.log2 - 52) = 2 ^ m.log2 := two_pow_mul (by omega)
      _ ≤ m := Nat.log2_self_le hne
  have hround : 2 ^ (52 : Nat) ≤ roundShift m (m.log2 - 52) := by
    rw [roundShift]
    split <;> omega
  simp only [nearestPattern, if_neg hne, roundTo, hunit]
  rw [if_neg (by omega)]
  simp only [hshift]
  omega

/-- The double of a large integer is infinite or a large integer again. -/
theorem exact_ofInt_of_le {n : Int} (hn : 2 ^ (53 : Nat) ≤ n.natAbs) :
    (Sample.real (ofInt n)).exact = .infinite (decide (n < 0)) ∨
      ∃ (m : Nat) (e : Int), 2 ^ (52 : Nat) ≤ m ∧ 0 ≤ e ∧
        (Sample.real (ofInt n)).exact = .finite (if n < 0 then -Int.ofNat m else m) e := by
  have hle := le_nearestPattern hn
  generalize hq : min (nearestPattern n.natAbs 0) infinityPattern = q
  have hd : ofInt n = ofMagnitude (decide (n < 0)) q := by rw [ofInt, nearest, hq]
  have hinf : infinityPattern = 2047 * 2 ^ (52 : Nat) := rfl
  have hlow : 1076 * 2 ^ (52 : Nat) ≤ q := by omega
  have hhigh : q ≤ infinityPattern := by omega
  have hmag : (ofInt n).magnitude = q := by rw [hd, magnitude_ofMagnitude (by omega)]
  have hsign : (ofInt n).isNegative = decide (n < 0) := by
    rw [hd, isNegative_ofMagnitude (by omega)]
  have hnan : ¬(ofInt n).isNaN = true := by
    rw [isNaN, hmag, decide_eq_true_eq]
    omega
  by_cases hlast : q = infinityPattern
  · have hinfinite : (ofInt n).isInfinite = true := by
      rw [isInfinite, hmag, hlast, decide_eq_true_eq]
    left
    rw [Sample.exact, if_neg hnan, if_pos hinfinite, hsign]
  · have hinfinite : ¬(ofInt n).isInfinite = true := by
      rw [isInfinite, hmag, decide_eq_true_eq]
      exact hlast
    have hexp : q / 2 ^ (52 : Nat) ≠ 0 := by omega
    have hparts : (ofInt n).parts =
        (q % 2 ^ (52 : Nat) + 2 ^ (52 : Nat), Int.ofNat (q / 2 ^ (52 : Nat)) - 1075) := by
      simp only [parts, hmag, if_neg hexp]
    refine .inr ⟨q % 2 ^ (52 : Nat) + 2 ^ (52 : Nat),
      Int.ofNat (q / 2 ^ (52 : Nat)) - 1075,by omega,?_,?_⟩
    · rw [Int.ofNat_eq_natCast]
      omega
    · rw [Sample.exact, if_neg hnan, if_neg hinfinite]
      simp only [hparts, hsign, decide_eq_true_eq]
      rfl

end Double

/-- An integer whose double is in range is held exactly. -/
theorem Sample.natAbs_lt_of_inRange {n : Int} (h : (Sample.real (Double.ofInt n)).InRange) :
    n.natAbs < 2 ^ (53 : Nat) := by
  refine Nat.lt_of_not_le fun hn => ?_
  obtain ⟨hlow,hhigh⟩ := h
  rcases Double.exact_ofInt_of_le hn with hx | ⟨m,e,hm,he,hx⟩
  · rw [hx, Exact.ofInt] at hlow hhigh
    cases hneg : decide (n < 0)
    · simp [hneg] at hhigh
    · simp [hneg] at hlow
  · have hpow : (1 : Int) ≤ 2 ^ (e - 0).toNat := Int.pow_pos (by decide)
    have hlarge : (m : Int) * 1 ≤ m * 2 ^ (e - 0).toNat :=
      Int.mul_le_mul_of_nonneg_left hpow (by omega)
    rw [hx, Exact.ofInt, Exact.le_finite (u := 0) (by omega) (by omega), decide_eq_true_eq]
      at hlow hhigh
    simp only [BandRecord.sampleMin, BandRecord.sampleMax, Int.sub_zero, Int.toNat_zero,
      Int.pow_zero, Int.mul_one] at hlow hhigh hlarge
    split at hlow
    · next hneg =>
        rw [Int.ofNat_eq_natCast, Int.neg_mul] at hlow
        omega
    · next hpos =>
        rw [if_neg hpos] at hhigh
        omega

end RasterWkb
