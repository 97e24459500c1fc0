import RasterWkb.Session
import RasterWkb.Settings.Decoding
import RasterWkb.View

/-!
# Views are read in their order

A view has two ways to its bytes: they are used where they stand, or they are copied. Both
give the byte at each position of the view in turn, for steps of either sign and buffers of
any length, be it a multiple of the step or not. So a cursor over a view behaves like one
over the selected bytes alone, and the bytes between the positions are never observed.
-/
namespace RasterWkb

namespace View
variable {v : View} {i k : Nat} {x d : List UInt8} {step : Int}

/-! ### Two ways to the same bytes -/

theorem getElem?_copied (v : View) (hi : i < v.count) :
    v.copied[i]? = v.buffer[v.position i]? := by
  rw [copied, List.getElem?_ofFn, dif_pos hi, byte, List.get_eq_getElem,
    List.getElem?_eq_getElem (v.position_lt hi)]

/-- Bytes side by side stand where the positions of the view are. -/
theorem getElem?_standing (hv : v.isContiguous = true) (hi : i < v.count) :
    v.standing[i]? = v.buffer[v.position i]? := by
  have hinside := v.inside i hi
  have hplace : v.start.toNat + i = v.position i := by
    rw [isContiguous, Bool.or_eq_true, beq_iff_eq, beq_iff_eq] at hv
    unfold position
    rcases hv with hcount | hstep
    · obtain rfl : i = 0 := by omega
      rw [Int.natCast_zero, Int.zero_mul, Int.add_zero, Nat.add_zero]
    · rw [hstep, Int.mul_one] at hinside ⊢
      have hfirst := v.inside 0 (by omega)
      omega
  rw [standing, List.getElem?_take_of_lt hi, List.getElem?_drop, hplace]

theorem length_copied (v : View) : v.copied.length = v.count :=
  List.length_ofFn

theorem length_standing (hv : v.isContiguous = true) : v.standing.length = v.count := by
  rw [standing, List.length_take, List.length_drop]
  by_cases hcount : v.count = 0
  · omega
  · -- The first and the last byte of the view are in the buffer.
    have hfirst := v.inside 0 (by omega)
    have hlast := v.inside (v.count - 1) (by omega)
    rw [isContiguous, Bool.or_eq_true, beq_iff_eq, beq_iff_eq] at hv
    rcases hv with hone | hstep
    · rw [hone] at hlast ⊢
      omega
    · rw [hstep] at hlast
      omega

theorem standing_eq_copied (hv : v.isContiguous = true) : v.standing = v.copied := by
  refine List.ext_getElem? fun i => ?_
  by_cases hi : i < v.count
  · rw [getElem?_standing hv hi, getElem?_copied v hi]
  · rw [List.getElem?_eq_none (by rw [length_standing hv]; omega),
      List.getElem?_eq_none (by rw [length_copied]; omega)]

/-- It makes no difference which way is taken. -/
theorem contents_eq_copied (v : View) : v.contents = v.copied := by
  unfold contents
  split
  · next hv => exact standing_eq_copied hv
  · rfl

theorem length_contents (v : View) : v.contents.length = v.count := by
  rw [contents_eq_copied, length_copied]

theorem getElem?_contents (v : View) (i : Nat) :
    v.contents[i]? = if i < v.count then v.buffer[v.position i]? else none := by
  rw [contents_eq_copied]
  split
  · next hi => exact getElem?_copied v hi
  · next hi => exact List.getElem?_eq_none (by rw [length_copied]; omega)

/-! ### Buffers in steps -/

section Steps
variable (hk : 0 < k)
include hk

theorem lt_count_iff (x : List UInt8) (h : step ≠ 0) (hstep : step.natAbs = k) :
    i < (inSteps x step h).count ↔ i * k < x.length := by
  rw [count_inSteps, hstep]
  exact lt_steps_iff hk

theorem getElem?_forwards (x : List UInt8) (h : (k : Int) ≠ 0) (i : Nat) :
    (inSteps x k h).contents[i]? = x[i * k]? := by
  have hposition : (inSteps x k h).position i = i * k := by
    have hsign : ¬(k : Int) < 0 := by omega
    rw [position_inSteps, if_neg hsign, Int.zero_add, ← Int.natCast_mul, Int.toNat_natCast]
  rw [getElem?_contents, hposition, buffer_inSteps]
  split
  · rfl
  · next hi =>
      rw [lt_count_iff hk x h (Int.natAbs_natCast k), Nat.not_lt] at hi
      exact (List.getElem?_eq_none hi).symm

theorem getElem?_backwards (x : List UInt8) (h : -(k : Int) ≠ 0) (i : Nat) :
    (inSteps x (-k) h).contents[i]? =
      if i * k < x.length then x[x.length - 1 - i * k]? else none := by
  have hsize : (-(k : Int)).natAbs = k := by rw [Int.natAbs_neg, Int.natAbs_natCast]
  have hsign : -(k : Int) < 0 := by omega
  rw [getElem?_contents, buffer_inSteps]
  simp only [lt_count_iff hk x h hsize]
  split
  · next hi =>
      have hposition : (inSteps x (-k) h).position i = x.length - 1 - i * k := by
        rw [position_inSteps, if_pos hsign, Int.mul_neg, ← Int.natCast_mul]
        omega
      rw [hposition]
  · rfl

end Steps

/-- The steps that start within a length are as many as the multiples below it. -/
theorem steps_eq_countP (length : Nat) :
    steps length k = (List.range length).countP fun place => k ∣ place := by
  induction length with
  | zero => rfl
  | succ length ih =>
      rw [List.range_succ, List.countP_append, ← ih, List.countP_singleton]
      simp only [decide_eq_true_eq]
      cases length with
      | zero => simp [steps]
      | succ length =>
          simp only [steps, Nat.succ_ne_zero, if_false, Nat.add_sub_cancel, Nat.succ_div]
          omega

/-- Counted from the other end, the multiples are as many. -/
theorem countP_backwards (length : Nat) :
    ((List.range length).countP fun place => k ∣ length - 1 - place) =
      (List.range length).countP fun place => k ∣ place := by
  have hback : (List.range length).map (length - 1 - ·) = (List.range length).reverse := by
    rw [List.range_eq_range', List.reverse_range', Nat.zero_add, List.range_eq_range']
  calc ((List.range length).countP fun place => k ∣ length - 1 - place)
      = ((List.range length).map (length - 1 - ·)).countP fun place => k ∣ place :=
        by rw [List.countP_map]; rfl
    _ = _ := by rw [hback, List.countP_reverse]

/-! ### Runs over a view -/

/-- Whatever is done over the view comes to the same as over the bytes alone. -/
structure ReadsAs (v : View) (d : List UInt8) : Prop where
  remaining : ∀ order, (Cursor.ofView v order).remaining = d.length
  session : ∀ (order : Option ByteOrder) (image : Image) (steps : List Step),
    (⟨.ofView v order,image⟩ : Session).outcomes steps =
      (⟨.start d order,image⟩ : Session).outcomes steps
  decode : ∀ (s : SettingsStore) (given : Option Settings),
    s.decode given v.contents = s.decode given d

theorem readsAs_of_getElem? (h : ∀ i : Nat, d[i]? = v.contents[i]?) : v.ReadsAs d := by
  obtain rfl : d = v.contents := List.ext_getElem? h
  exact ⟨fun _ => rfl,fun _ _ _ => rfl,fun _ _ => rfl⟩

/-- A buffer in steps reads as the bytes at the first position, one step further and so on,
whatever lies between them, and it has as many bytes as there are such positions. -/
theorem inSteps_readsAs (x : List UInt8) (k : Nat) (hk : 0 < k) :
    (∀ h : (k : Int) ≠ 0,
      (∀ d : List UInt8, (∀ i, d[i]? = x[i * k]?) → (inSteps x k h).ReadsAs d) ∧
      ∀ order, (Cursor.ofView (inSteps x k h) order).remaining =
        (List.range x.length).countP fun place => k ∣ place) ∧
    ∀ h : -(k : Int) ≠ 0,
      (∀ d : List UInt8,
        (∀ i, d[i]? = if i * k < x.length then x[x.length - 1 - i * k]? else none) →
          (inSteps x (-k) h).ReadsAs d) ∧
      ∀ order, (Cursor.ofView (inSteps x (-k) h) order).remaining =
        (List.range x.length).countP fun place => k ∣ x.length - 1 - place := by
  have hlength : ∀ (step : Int) (h : step ≠ 0), step.natAbs = k → ∀ order,
      (Cursor.ofView (inSteps x step h) order).remaining = steps x.length k := by
    intro step h hstep order
    rw [← hstep, ← count_inSteps x step h, ← length_contents]
    rfl
  refine ⟨fun h => ⟨fun d hd => ?_,fun order => ?_⟩,fun h => ⟨fun d hd => ?_,fun order => ?_⟩⟩
  · exact readsAs_of_getElem? fun i => by rw [hd, getElem?_forwards hk]
  · rw [hlength k h (Int.natAbs_natCast k), steps_eq_countP]
  · exact readsAs_of_getElem? fun i => by rw [hd, getElem?_backwards hk]
  · rw [hlength _ h (by rw [Int.natAbs_neg, Int.natAbs_natCast]), countP_backwards,
      steps_eq_countP]

/-- Five bytes in steps of three: the first and the fourth, or the last and the second. -/
theorem inSteps_readsAs_five :
    0 < 3 ∧ (inSteps [0x61, 0x62, 0x63, 0x64, 0x65] 3 (by decide)).ReadsAs [0x61, 0x64] ∧
      (inSteps [0x61, 0x62, 0x63, 0x64, 0x65] (-3) (by decide)).ReadsAs [0x65, 0x62] := by
  have hviews := inSteps_readsAs [0x61, 0x62, 0x63, 0x64, 0x65] 3 (by decide)
  refine ⟨by decide,(hviews.1 (by decide)).1 _ ?_,(hviews.2 (by decide)).1 _ ?_⟩
  · rintro (_ | _ | i)
    · rfl
    · rfl
    · rw [List.getElem?_eq_none (by simp), List.getElem?_eq_none]
      simp only [List.length_cons, List.length_nil]
      omega
  · rintro (_ | _ | i)
    · rfl
    · rfl
    · rw [List.getElem?_eq_none (by simp), if_neg]
      simp only [List.length_cons, List.length_nil]
      omega

end View

end RasterWkb
