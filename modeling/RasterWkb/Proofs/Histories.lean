/-!
# States along a list of steps

Steps are taken one after another from a first state on. The state in front of a step
depends on the steps before it only, and what one step keeps is kept from any state to
later ones.
-/
namespace RasterWkb

section
variable {σ ι : Type} {next : σ → ι → σ} {s : σ} {steps : List ι} {step : ι} {i j : Nat}

/-- The state in front of the step with an index. -/
def stateAt (next : σ → ι → σ) (s : σ) (steps : List ι) (i : Nat) : σ :=
  (steps.take i).foldl next s

theorem stateAt_succ (h : steps[i]? = some step) :
    stateAt next s steps (i + 1) = next (stateAt next s steps i) step := by
  rw [stateAt, stateAt, List.take_add_one, h, List.foldl_append]
  rfl

/-- Behind the last step nothing changes. -/
theorem stateAt_succ_of_none (h : steps[i]? = none) :
    stateAt next s steps (i + 1) = stateAt next s steps i := by
  rw [stateAt, stateAt, List.take_add_one, h]
  exact congrArg (List.foldl next s) (List.append_nil _)

/-- What every step keeps is kept from any state to later ones. -/
theorem stateAt_of_le {P : σ → Prop} (hstep : ∀ s step, P s → P (next s step)) (hij : i ≤ j)
    (hi : P (stateAt next s steps i)) : P (stateAt next s steps j) := by
  induction hij with
  | refl => exact hi
  | @step j _ ih =>
      cases hs : steps[j]? with
      | none => rwa [stateAt_succ_of_none hs]
      | some step =>
          rw [stateAt_succ hs]
          exact hstep _ _ ih

end

end RasterWkb
