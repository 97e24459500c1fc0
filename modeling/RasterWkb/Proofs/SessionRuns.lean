import RasterWkb.Session
import RasterWkb.Proofs.Decoding
import RasterWkb.Proofs.Histories
import RasterWkb.Proofs.Stepwise

/-!
# Sessions from step to step

A session is followed through its cursors. Whatever its steps are and however they
end, each cursor stands within the stream and has left what lies behind it, a byte
order that is fixed stays as it is, and the stretches that the steps passed over tile
the stream up to where the session stands.

Each of these is shown of one step first. A step reads stepwise, except that a raster
looks at the size of its input first; either way it runs as some stepwise reading does.
-/
namespace RasterWkb

/-! ### What runs leave as it is -/

namespace Reading
variable {α β : Type} {c : Cursor} {o : ByteOrder}

theorem Stepwise.order_fixed {r : Reading α} (h : Stepwise r) (ho : c.order = some o) :
    (r.run c).cursor.order = some o := by
  induction h generalizing c with
  | pure => exact ho
  | fail => exact ho
  | report => exact ho
  | paint => exact ho
  | fixOrder o' =>
      rw [run_fixOrder_fixed o' ho]
      exact ho
  | @supplied _ role d _ =>
      rcases hd : d c.order with fault | ⟨size,view⟩
      · rw [run_supplied_of_error hd]
        exact ho
      · rcases Nat.lt_or_ge c.remaining size with hlt | hle
        · rw [run_supplied_of_lt hd hlt]
          exact ho
        · rw [run_supplied_of_le hd hle]
          exact ho
  | @bind _ _ r next _ _ ihr ihn =>
      cases hr : (r.run c).result with
      | error fault =>
          rw [run_bind_of_error hr]
          exact ihr ho
      | ok a =>
          rw [run_bind_of_ok hr]
          exact ihn a (ihr ho)
  | traced _ ih =>
      rw [run_traced]
      exact ih ho

end Reading

/-! ### One step -/

namespace Step
open Reading

/-- A step that is no raster reads stepwise. -/
theorem stepwise_reading {step : Step} (hno : ∀ s, step ≠ .raster s) :
    step.reading.Stepwise := by
  cases step with
  | uint8 => exact (Stepwise.uint8 _).bind fun _ => .pure _
  | uint16 => exact Stepwise.uint16.bind fun _ => .pure _
  | uint32 => exact (Stepwise.word .uint32).bind fun _ => .pure _
  | int32 => exact Stepwise.int32.bind fun _ => .pure _
  | float64 => exact Stepwise.float64.bind fun _ => .pure _
  | bytes count => exact (Stepwise.bytes _ count).bind fun _ => .pure _
  | skip count => exact (Stepwise.skip _ count).bind fun _ => .pure _
  | order o => exact (Stepwise.fixOrder o).bind fun _ => .pure _
  | header => exact Header.stepwise_parse.bind fun _ => .pure _
  | grayscale h passing => exact (BandStream.stepwise_grayscale h passing).bind fun _ => .pure _
  | rgb h passing =>
      exact (BandStream.stepwise_bandsFrom h passing _ none 0).bind fun _ => .pure _
  | raster s => exact absurd rfl (hno s)

theorem run_raster (s : Settings) (c : Cursor) :
    (raster s).reading.run c =
      ⟨((Raster.read s).run c).result.map .raster, ((Raster.read s).run c).cursor,
        ((Raster.read s).run c).trace⟩ :=
  run_bind_pure (Raster.read s) StepValue.raster c

/-- From each cursor a step runs as some stepwise reading does. -/
theorem run_stepwise (step : Step) (c : Cursor) :
    ∃ r : Reading StepValue, r.Stepwise ∧ step.reading.run c = r.run c := by
  by_cases h : ∀ s, step ≠ .raster s
  · exact ⟨step.reading,stepwise_reading h,rfl⟩
  · obtain ⟨s,hs⟩ := not_forall.mp h
    obtain rfl : step = .raster s := not_not.mp hs
    rw [run_raster]
    rcases Nat.lt_or_ge s.maxInputBytes c.remaining with hlarge | hsize
    · have hplaceless : (Fault.decode (.inputTooLarge c.remaining s.maxInputBytes)).Placeless :=
        fun _ _ _ h => by cases h
      rw [Raster.run_read_of_lt hlarge]
      exact ⟨_,.fail hplaceless,rfl⟩
    · rw [Raster.run_read_of_le hsize]
      refine ⟨_,(Raster.stepwise_readBody s.skipUnsupportedPayload).bind fun r =>
        .pure (StepValue.raster r),?_⟩
      rw [run_bind_pure]

theorem covers (step : Step) (c : Cursor) : (step.reading.run c).Covers c := by
  obtain ⟨r,hr,hrun⟩ := step.run_stepwise c
  rw [hrun]
  exact hr.covers c

theorem order_fixed (step : Step) {c : Cursor} {o : ByteOrder} (ho : c.order = some o) :
    (step.reading.run c).cursor.order = some o := by
  obtain ⟨r,hr,hrun⟩ := step.run_stepwise c
  rw [hrun]
  exact hr.order_fixed ho

end Step

/-! ### Steps in turn -/

namespace Session
variable {s : Session} {steps : List Step} {data : List UInt8} {step : Step} {i j : Nat}

/-- The session after steps in turn. -/
def after (s : Session) (steps : List Step) : Session :=
  steps.foldl (fun s step => (s.advance step).session) s

/-- The session in front of the step with an index. -/
def before (s : Session) (steps : List Step) (i : Nat) : Session :=
  s.after (steps.take i)

/-- Each outcome is that of its step, in the session that the steps in front of it leave. -/
theorem getElem?_outcomes (s : Session) (steps : List Step) (i : Nat) :
    (s.outcomes steps)[i]? = steps[i]?.map (s.before steps i).advance := by
  induction steps generalizing s i with
  | nil => rfl
  | cons step steps ih =>
      cases i with
      | zero => rfl
      | succ i =>
          rw [outcomes, List.getElem?_cons_succ, List.getElem?_cons_succ, ih]
          rfl

theorem before_succ (h : steps[i]? = some step) :
    s.before steps (i + 1) = ((s.before steps i).advance step).session :=
  stateAt_succ h

/-- What leads from session to session leads from any session to later ones. -/
theorem before_of_le {P : Session → Prop} (hstep : ∀ s step, P s → P (s.advance step).session)
    (hij : i ≤ j) (hi : P (s.before steps i)) : P (s.before steps j) :=
  stateAt_of_le hstep hij hi

theorem within_before (h : s.cursor.Within data) (i : Nat) :
    (s.before steps i).cursor.Within data :=
  before_of_le (P := fun s => s.cursor.Within data)
    (fun s step h => h.covers (step.covers s.cursor)) (Nat.zero_le i) h

/-- A byte order that is fixed stays as it is. -/
theorem order_before {o : ByteOrder} (hij : i ≤ j)
    (hi : (s.before steps i).cursor.order = some o) :
    (s.before steps j).cursor.order = some o :=
  before_of_le (P := fun s => s.cursor.order = some o) (fun _ step h => step.order_fixed h) hij hi

/-- The stretches of the steps lie one behind the other. -/
theorem tiles_outcomes (s : Session) (steps : List Step) :
    Tiles s.cursor.offset ((s.outcomes steps).flatMap fun o => o.run.trace.spans)
      (s.after steps).cursor.offset := by
  induction steps generalizing s with
  | nil => exact .nil _
  | cons step steps ih =>
      rw [outcomes, List.flatMap_cons]
      exact (step.covers s.cursor).tiles.append (ih (s.advance step).session)

end Session

end RasterWkb
