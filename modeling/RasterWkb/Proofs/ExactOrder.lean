import RasterWkb.BandRecord

/-!
# Comparing samples by their exact values

Apart from values that compare with nothing, exact values are ordered totally,
although each comparison is made over a unit of its own. The least and greatest
of samples that all compare bound every sample, whichever of equal ones is taken;
so a range check that passes has checked all of them.
-/
namespace RasterWkb

namespace Exact

/-- Finite values may be compared over any unit that is fine enough for both. -/
theorem le_finite {m n e f u : Int} (he : u ≤ e) (hf : u ≤ f) :
    (finite m e).le (finite n f) =
      decide (m * 2 ^ (e - u).toNat ≤ n * 2 ^ (f - u).toNat) := by
  have hpos : (0 : Int) < 2 ^ (min e f - u).toNat := Int.pow_pos (by decide)
  have hsplit : ∀ g, min e f ≤ g →
      (2 : Int) ^ (g - u).toNat = 2 ^ (g - min e f).toNat * 2 ^ (min e f - u).toNat := by
    intro g hg
    rw [← Int.pow_add]
    congr 1
    omega
  rw [le, hsplit e (Int.min_le_left e f), hsplit f (Int.min_le_right e f), ← Int.mul_assoc,
    ← Int.mul_assoc]
  exact decide_eq_decide.mpr (Int.mul_le_mul_right hpos).symm

@[simp] theorem nan_le (a : Exact) : nan.le a = false := rfl

@[simp] theorem le_nan (a : Exact) : a.le nan = false := by
  cases a with
  | infinite s => cases s <;> rfl
  | _ => rfl

@[simp] theorem infinite_le_infinite (s t : Bool) :
    (infinite s).le (infinite t) = (s || !t) := by
  cases s <;> cases t <;> rfl

@[simp] theorem infinite_le_finite (s : Bool) (m e : Int) :
    (infinite s).le (finite m e) = s := by
  cases s <;> rfl

@[simp] theorem finite_le_infinite (s : Bool) (m e : Int) :
    (finite m e).le (infinite s) = !s := by
  cases s <;> rfl

theorem le_trans {a b c : Exact} (hab : a.le b = true) (hbc : b.le c = true) : a.le c = true := by
  match a, b, c with
  | finite m e, finite n f, finite k g =>
      rw [le_finite (u := min e (min f g)) (by omega) (by omega), decide_eq_true_eq]
        at hab hbc ⊢
      exact Int.le_trans hab hbc
  | nan, _, _ => exact absurd hab Bool.false_ne_true
  | _, _, nan => simp at hbc
  | finite _ _, nan, _ | infinite _, nan, _ => simp at hab
  | finite _ _, finite _ _, infinite _ | infinite _, finite _ _, finite _ _
  | infinite _, finite _ _, infinite _ => simp_all
  | finite _ _, infinite _, finite _ _ | finite _ _, infinite _, infinite _
  | infinite _, infinite _, finite _ _ => simp_all
  | infinite s, infinite t, infinite _ => cases s <;> cases t <;> simp_all

theorem le_total {a b : Exact} (ha : a ≠ nan) (hb : b ≠ nan) :
    a.le b = true ∨ b.le a = true := by
  match a, b with
  | nan, _ => exact absurd rfl ha
  | _, nan => exact absurd rfl hb
  | finite m e, finite n f =>
      rw [le_finite (u := min e f) (by omega) (by omega),
        le_finite (u := min e f) (by omega) (by omega), decide_eq_true_eq, decide_eq_true_eq]
      exact Int.le_total _ _
  | finite _ _, infinite s => cases s <;> simp
  | infinite s, finite _ _ => cases s <;> simp
  | infinite s, infinite t => cases s <;> cases t <;> simp

theorem le_refl {a : Exact} (ha : a ≠ nan) : a.le a = true :=
  (le_total ha ha).elim id id

/-- A value that is not below another is not less than it, if both compare. -/
theorem le_of_not_lt {a b : Exact} (ha : a ≠ nan) (hb : b ≠ nan) (h : ¬a.lt b = true) :
    b.le a = true := by
  rcases le_total ha hb with hab | hba
  · rw [lt, hab, Bool.true_and, Bool.not_eq_true', Bool.not_eq_false] at h
    exact h
  · exact hba

theorem not_lt_of_le {a b : Exact} (h : b.le a = true) : a.lt b = false := by
  rw [lt, h, Bool.not_true, Bool.and_false]

/-- The comparison that decides between samples, strict or not. -/
theorem le_of_check {last : Bool} {a b : Exact}
    (h : (if last then a.lt b else a.le b) = true) : a.le b = true := by
  cases last with
  | true =>
      rw [if_pos rfl, lt, Bool.and_eq_true] at h
      exact h.1
  | false => exact h

theorem le_of_not_check {last : Bool} {a b : Exact} (ha : a ≠ nan) (hb : b ≠ nan)
    (h : ¬(if last then a.lt b else a.le b) = true) : b.le a = true := by
  cases last with
  | true => exact le_of_not_lt ha hb h
  | false => exact (le_total ha hb).resolve_left h

end Exact

namespace Sample

/-- A choice between samples picks one of the two, and the one picked is on the given
side of both. -/
structure Picks (r : Exact → Exact → Prop) (pick : Sample → Sample → Sample) : Prop where
  left_or_right : ∀ a b, pick a b = a ∨ pick a b = b
  first : ∀ a b, a.exact ≠ .nan → b.exact ≠ .nan → r (pick a b).exact a.exact
  second : ∀ a b, a.exact ≠ .nan → b.exact ≠ .nan → r (pick a b).exact b.exact

/-- The last choice is on the side of every sample. -/
theorem Picks.foldl {r : Exact → Exact → Prop} {pick : Sample → Sample → Sample}
    (hpick : Picks r pick) (refl : ∀ a, a ≠ .nan → r a a)
    (trans : ∀ a b c, r a b → r b c → r a c) {first : Sample} {others : List Sample}
    (hall : ∀ s ∈ first :: others, s.exact ≠ .nan) :
    (others.foldl pick first).exact ≠ .nan ∧
      ∀ s ∈ first :: others, r (others.foldl pick first).exact s.exact := by
  induction others generalizing first with
  | nil =>
      constructor
      · exact hall first List.mem_cons_self
      · intro s hs
        rw [List.mem_singleton.mp hs]
        exact refl _ (hall first List.mem_cons_self)
  | cons s ss ih =>
      have hfirst := hall first List.mem_cons_self
      have hs := hall s (List.mem_cons_of_mem first List.mem_cons_self)
      have hnext : ∀ u ∈ pick first s :: ss, u.exact ≠ .nan := by
        intro u hu
        rcases List.mem_cons.mp hu with rfl | hu
        · rcases hpick.left_or_right first s with h | h
          · rw [h]
            exact hfirst
          · rw [h]
            exact hs
        · exact hall u (List.mem_cons_of_mem first (List.mem_cons_of_mem s hu))
      obtain ⟨hnan,hbound⟩ := ih hnext
      have hhead := hbound (pick first s) List.mem_cons_self
      rw [List.foldl_cons]
      constructor
      · exact hnan
      · intro u hu
        rcases List.mem_cons.mp hu with rfl | hu
        · exact trans _ _ _ hhead (hpick.first u s hfirst hs)
        · rcases List.mem_cons.mp hu with rfl | hu
          · exact trans _ _ _ hhead (hpick.second first u hfirst hs)
          · exact hbound u (List.mem_cons_of_mem _ hu)

theorem Picks.foldl_mem {r : Exact → Exact → Prop} {pick : Sample → Sample → Sample}
    (hpick : Picks r pick) (first : Sample) (others : List Sample) :
    others.foldl pick first ∈ first :: others := by
  induction others generalizing first with
  | nil => exact List.mem_cons_self
  | cons s ss ih =>
      rw [List.foldl_cons]
      rcases List.mem_cons.mp (ih (pick first s)) with h | h
      · rw [h]
        rcases hpick.left_or_right first s with hp | hp
        · rw [hp]
          exact List.mem_cons_self
        · rw [hp]
          exact List.mem_cons_of_mem first List.mem_cons_self
      · exact List.mem_cons_of_mem first (List.mem_cons_of_mem s h)

theorem picks_ite {r : Exact → Exact → Prop} {keeps : Exact → Exact → Bool}
    (hkeep : ∀ a b, a ≠ .nan → b ≠ .nan → keeps a b = true → r a b)
    (hdrop : ∀ a b, a ≠ .nan → b ≠ .nan → ¬keeps a b = true → r b a)
    (refl : ∀ a, a ≠ .nan → r a a) :
    Picks r fun acc s => if keeps acc.exact s.exact then acc else s where
  left_or_right a b := by
    by_cases h : keeps a.exact b.exact = true
    · exact .inl (if_pos h)
    · exact .inr (if_neg h)
  first a b ha hb := by
    split
    · exact refl _ ha
    · next h => exact hdrop _ _ ha hb h
  second a b ha hb := by
    split
    · next h => exact hkeep _ _ ha hb h
    · exact refl _ hb

theorem picks_least (last : Bool) :
    Picks (fun a b => a.le b = true) fun acc s =>
      if if last then acc.exact.lt s.exact else acc.exact.le s.exact then acc else s :=
  picks_ite (fun _ _ _ _ => Exact.le_of_check) (fun _ _ => Exact.le_of_not_check)
    fun _ => Exact.le_refl

theorem picks_greatest (last : Bool) :
    Picks (fun a b => b.le a = true) fun acc s =>
      if if last then s.exact.lt acc.exact else s.exact.le acc.exact then acc else s :=
  picks_ite (fun _ _ _ _ => Exact.le_of_check)
    (fun _ _ ha hb => Exact.le_of_not_check hb ha) fun _ => Exact.le_refl

/-- The value lies in the range of sample bytes. -/
def InRange (s : Sample) : Prop :=
  (Exact.ofInt BandRecord.sampleMin).le s.exact = true ∧
    s.exact.le (.ofInt BandRecord.sampleMax) = true

end Sample

/-- A range check that passes has found every sample in range, if all samples compare. -/
theorem BandRecord.inRange_of_checkRange {kind : ElementKind} {elements : List Sample}
    (hall : ∀ s ∈ elements, s.exact ≠ .nan) (hok : checkRange kind elements = .ok ()) :
    ∀ s ∈ elements, s.InRange := by
  cases elements with
  | nil =>
      intro s hs
      exact absurd hs List.not_mem_nil
  | cons first others =>
      obtain ⟨hl,hleast⟩ := (Sample.picks_least kind.takesLast).foldl (fun _ => Exact.le_refl)
        (fun _ _ _ => Exact.le_trans) hall
      obtain ⟨hg,hgreatest⟩ := (Sample.picks_greatest kind.takesLast).foldl
        (fun _ => Exact.le_refl) (fun _ _ _ hba hcb => Exact.le_trans hcb hba) hall
      unfold checkRange at hok
      simp only [Bool.or_eq_true] at hok
      split at hok
      · cases hok
      · next h =>
          rw [not_or] at h
          have hlow := Exact.le_of_not_lt hl (by simp [Exact.ofInt]) h.1
          have hhigh := Exact.le_of_not_lt (by simp [Exact.ofInt]) hg h.2
          intro s hs
          exact ⟨Exact.le_trans hlow (hleast s hs),Exact.le_trans (hgreatest s hs) hhigh⟩

theorem BandRecord.checkRange_of_inRange {kind : ElementKind} {elements : List Sample}
    (h : ∀ s ∈ elements, s.InRange) : checkRange kind elements = .ok () := by
  cases elements with
  | nil => rfl
  | cons first others =>
      have hleast := h _ ((Sample.picks_least kind.takesLast).foldl_mem first others)
      have hgreatest := h _ ((Sample.picks_greatest kind.takesLast).foldl_mem first others)
      unfold checkRange
      simp only [Sample.least, Sample.greatest, Exact.not_lt_of_le hleast.1,
        Exact.not_lt_of_le hgreatest.2, Bool.or_self, Bool.false_eq_true, if_false]

end RasterWkb
