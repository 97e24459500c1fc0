import RasterWkb.Proofs.DisplacedRuns
import RasterWkb.Proofs.HeaderLayout
import RasterWkb.Proofs.SessionRuns

/-!
# Rasters read in the middle of a session

A raster can be read at any place of a stream, behind and in front of other steps. As
long as the byte order is open, reading there is decoding what is left: the same raster
or error and the same reports, with the places of lacking bytes counted from the start
of the stream. Once the order is fixed, a raster is refused without a look at more than
its first byte.

A reading that looks at a byte has fixed the order, whatever it comes to afterwards. So
at most one raster of a session is decoded, and those behind it are refused.
-/
namespace RasterWkb

open Reading

/-! ### Where the order becomes fixed -/

section Orders
variable {α β : Type} {c : Cursor} {o : ByteOrder}

theorem Reading.Stepwise.order_bind {r : Reading α} {next : α → Reading β}
    (hn : ∀ a, Stepwise (next a)) (ho : (r.run c).cursor.order = some o) :
    ((r >>= next).run c).cursor.order = some o := by
  cases hr : (r.run c).result with
  | error fault =>
      rw [run_bind_of_error hr]
      exact ho
  | ok a =>
      rw [run_bind_of_ok hr]
      exact (hn a).order_fixed ho

/-- A header that has a first byte fixes the order, whether or not the rest can be read. -/
theorem Header.order_parse (hopen : c.order = none) {b : UInt8} {bs : List UInt8}
    (hrest : c.rest = b :: bs) : (parse.run c).cursor.order = some (orderAt c.rest) := by
  have hmark : (Reading.uint8 .field).run c = _ := run_uint8_cons hrest
  have hfix := run_fixOrder hopen hrest
  rw [parse_eq_stages]
  refine Stepwise.order_bind stepwise_behind_opening ?_
  rw [readOpening, run_bind_of_ok (by rw [hmark]), hmark]
  refine Stepwise.order_bind (fun _ => Stepwise.uint16.bind fun _ => .pure _) ?_
  rw [hfix]
  rfl

end Orders

/-! ### One raster -/

theorem Reading.Movable.remaining {k : Nat}
    {orders : Option ByteOrder → Option ByteOrder → Prop} :
    Movable k orders Reading.remaining :=
  fun _ _ h => ⟨congrArg Except.ok h.remaining,h,rfl⟩

namespace Raster
variable {s : Settings} {data : List UInt8} {c : Cursor}

theorem movable_read (s : Settings) (k : Nat) : Movable k Eq (read s) :=
  Movable.remaining.bind fun _ =>
    .ite (.fail fun _ _ _ h => by cases h) (movable_readBody s.skipUnsupportedPayload)

/-- The run is the decoding of the stream from a place on: it has its result, its reports and
what it consumes, except that faults count from the start of the stream. -/
structure DecodesFrom (s : Settings) (data : List UInt8) (place : Nat) (r : Run StepValue) :
    Prop where
  result : r.result =
    ((decode s (data.drop place)).result.mapError (Fault.behind place)).map .raster
  lines : r.trace.lines = (decode s (data.drop place)).trace.lines
  offset : r.cursor.offset = place + (decode s (data.drop place)).cursor.offset

/-- The reading of a raster that looks at no byte: there are too many of them, or none. -/
inductive Untouched (s : Settings) (c : Cursor) : Run StepValue → Prop
  | tooLarge (hsize : s.maxInputBytes < c.remaining) :
      Untouched s c ⟨.error (.decode (.inputTooLarge c.remaining s.maxInputBytes)), c, []⟩
  | empty (hsize : c.remaining = 0) :
      Untouched s c ⟨.error (.decode (.bufferUnderrun c.offset 1 0)), c, []⟩

/-- How the reading of a raster ends when the byte order is fixed already. -/
inductive Refused (s : Settings) (c : Cursor) : Run StepValue → Prop
  | untouched {r : Run StepValue} (h : Untouched s c r) : Refused s c r
  | orderFixed (hsize : c.remaining ≤ s.maxInputBytes) (hleft : 0 < c.remaining) :
      Refused s c ⟨.error .orderFixed, c.advance 1, [.took .field c.offset 1]⟩

theorem Untouched.not_ok {r : Run StepValue} (h : Untouched s c r) (value : StepValue) :
    r.result ≠ .ok value := by
  intro hok
  cases h <;> cases hok

theorem Refused.not_ok {r : Run StepValue} (h : Refused s c r) (value : StepValue) :
    r.result ≠ .ok value := by
  intro hok
  cases h with
  | untouched h => exact h.not_ok value hok
  | orderFixed => cases hok

/-- Where the order is open, reading a raster is decoding what is left. -/
theorem decodesFrom (hc : c.Within data) (hopen : c.order = none) :
    DecodesFrom s data c.offset ((Step.raster s).reading.run c) := by
  have hmoved : (decode s (data.drop c.offset)).Displaced c.offset Eq ((read s).run c) :=
    movable_read s c.offset _ c ⟨(Nat.zero_add _).symm,hc.rest,hopen.symm⟩
  rw [Step.run_raster]
  refine ⟨congrArg (Except.map StepValue.raster) hmoved.result,?_,?_⟩
  · rw [hmoved.trace, Trace.lines_behind]
  · rw [hmoved.cursor.offset, Nat.add_comm]

theorem run_read_of_empty (hempty : c.rest = []) :
    (read s).run c = ⟨.error (.decode (.bufferUnderrun c.offset 1 0)), c, []⟩ := by
  have hsize : c.remaining ≤ s.maxInputBytes := by
    rw [Cursor.remaining, hempty]
    exact Nat.zero_le _
  have hparse : Header.parse.run c = ⟨.error (.decode (.bufferUnderrun c.offset 1 0)), c, []⟩ := by
    rw [Header.parse, run_bind_of_error (by rw [run_uint8_nil hempty]), run_uint8_nil hempty]
  rw [run_read_of_le hsize, run_readBody_of_error (by rw [hparse]), hparse]

/-- A raster is read from its first byte on, unless none is looked at. -/
theorem untouched_or_opens (s : Settings) (c : Cursor) :
    Untouched s c ((Step.raster s).reading.run c) ∨
      c.remaining ≤ s.maxInputBytes ∧ ∃ b bs, c.rest = b :: bs := by
  rw [Step.run_raster]
  rcases Nat.lt_or_ge s.maxInputBytes c.remaining with hlarge | hsize
  · rw [run_read_of_lt hlarge]
    exact .inl (.tooLarge hlarge)
  · cases hrest : c.rest with
    | nil =>
        rw [run_read_of_empty hrest]
        exact .inl (.empty (congrArg List.length hrest))
    | cons b bs => exact .inr ⟨hsize,b,bs,rfl⟩

/-- Where the order is fixed, a raster is refused. -/
theorem refused {o : ByteOrder} (ho : c.order = some o) :
    Refused s c ((Step.raster s).reading.run c) := by
  rcases untouched_or_opens s c with h | ⟨hsize,b,bs,hrest⟩
  · exact .untouched h
  -- The first byte is consumed before the order turns out to be fixed.
  · have hleft : 0 < c.remaining := by
      rw [Cursor.remaining, hrest]
      exact Nat.succ_pos _
    have hmark : (Reading.uint8 .field).run c = _ := run_uint8_cons hrest
    have hfix : (Reading.fixOrder (Header.orderOf b)).run (c.advance 1) = _ :=
      run_fixOrder_fixed _ (c := c.advance 1) ho
    have hparse : Header.parse.run c =
        ⟨.error .orderFixed, c.advance 1, [.took .field c.offset 1]⟩ := by
      rw [Header.parse, run_bind_of_ok (by rw [hmark]), hmark,
        run_bind_of_error (by rw [hfix]), hfix]
      rfl
    rw [Step.run_raster, run_read_of_le hsize, run_readBody_of_error (by rw [hparse]), hparse]
    exact .orderFixed hsize hleft

/-- A raster whose first byte is looked at fixes the order. -/
theorem order_readBody (passing : Bool) (hopen : c.order = none) {b : UInt8} {bs : List UInt8}
    (hrest : c.rest = b :: bs) :
    ((readBody passing).run c).cursor.order = some (Header.orderAt c.rest) :=
  Stepwise.order_bind (fun h => (Header.stepwise_extent h).bind fun _ =>
    (Stepwise.report _).bind fun _ => (stepwise_readBands h passing).traced.bind fun _ =>
    .pure _) (Header.order_parse hopen hrest)

/-- The order is open behind a raster only if no byte was looked at. -/
theorem untouched (hopen : ((Step.raster s).reading.run c).cursor.order = none) :
    Untouched s c ((Step.raster s).reading.run c) := by
  rcases untouched_or_opens s c with h | ⟨hsize,b,bs,hrest⟩
  · exact h
  · cases ho : c.order with
    | some o =>
        rw [Step.order_fixed _ ho] at hopen
        cases hopen
    | none =>
        rw [Step.run_raster, run_read_of_le hsize, order_readBody _ ho hrest] at hopen
        cases hopen

end Raster

/-! ### The rasters of a session -/

namespace Session
variable {data : List UInt8} {s : Session} {steps : List Step}

/-- The step with the index reads a raster, with this outcome. -/
structure ReadsRaster (s : Session) (steps : List Step) (i : Nat) (settings : Settings)
    (outcome : StepOutcome) : Prop where
  step : steps[i]? = some (.raster settings)
  outcome : (s.outcomes steps)[i]? = some outcome

namespace ReadsRaster
variable {i j : Nat} {settings settings' : Settings} {outcome outcome' : StepOutcome}

theorem run (h : ReadsRaster s steps i settings outcome) :
    outcome.run = (Step.raster settings).reading.run (s.before steps i).cursor := by
  have houtcome := h.outcome
  rw [getElem?_outcomes, h.step] at houtcome
  exact congrArg StepOutcome.run (Option.some.inj houtcome).symm

theorem cursor (h : ReadsRaster s steps i settings outcome) :
    (s.before steps (i + 1)).cursor = outcome.run.cursor := by
  rw [before_succ h.step, h.run]
  rfl

/-- Behind a raster that was looked at, later ones are refused. -/
theorem refused_later (h : ReadsRaster s steps i settings outcome)
    (h' : ReadsRaster s steps j settings' outcome') (hij : i < j)
    (hlooked : outcome.run.cursor.order ≠ none) :
    Raster.Refused settings' (s.before steps j).cursor outcome'.run := by
  obtain ⟨o,ho⟩ := Option.ne_none_iff_exists'.mp hlooked
  rw [← h.cursor] at ho
  rw [h'.run]
  exact Raster.refused (order_before hij ho)

end ReadsRaster

/-- What becomes of the rasters that are read in a session. -/
structure ReadsOnce (data : List UInt8) (s : Session) (steps : List Step) : Prop where
  opened : ∀ i settings outcome, ReadsRaster s steps i settings outcome →
    (s.before steps i).cursor.order = none →
      Raster.DecodesFrom settings data (s.before steps i).cursor.offset outcome.run
  refused : ∀ i settings outcome, ReadsRaster s steps i settings outcome →
    (s.before steps i).cursor.order ≠ none →
      Raster.Refused settings (s.before steps i).cursor outcome.run
  untouched : ∀ i settings outcome, ReadsRaster s steps i settings outcome →
    (s.before steps (i + 1)).cursor.order = none →
      Raster.Untouched settings (s.before steps i).cursor outcome.run
  once : ∀ i j settings settings' outcome outcome', i < j →
    ReadsRaster s steps i settings outcome → ReadsRaster s steps j settings' outcome' →
      Raster.Untouched settings (s.before steps i).cursor outcome.run ∨
        Raster.Refused settings' (s.before steps j).cursor outcome'.run
  single : ∀ i j settings settings' outcome outcome' value value',
    ReadsRaster s steps i settings outcome → ReadsRaster s steps j settings' outcome' →
      outcome.run.result = .ok value → outcome'.run.result = .ok value' → i = j

namespace ReadsRaster
variable {i j : Nat} {settings settings' : Settings} {outcome outcome' : StepOutcome}

theorem untouched (h : ReadsRaster s steps i settings outcome)
    (hopen : outcome.run.cursor.order = none) :
    Raster.Untouched settings (s.before steps i).cursor outcome.run := by
  rw [h.run] at hopen ⊢
  exact Raster.untouched hopen

theorem untouched_or_refused (h : ReadsRaster s steps i settings outcome)
    (h' : ReadsRaster s steps j settings' outcome') (hij : i < j) :
    Raster.Untouched settings (s.before steps i).cursor outcome.run ∨
      Raster.Refused settings' (s.before steps j).cursor outcome'.run := by
  by_cases hlooked : outcome.run.cursor.order = none
  · exact .inl (h.untouched hlooked)
  · exact .inr (h.refused_later h' hij hlooked)

/-- No two rasters of a session are returned. -/
theorem not_lt_of_ok (h : ReadsRaster s steps i settings outcome)
    (h' : ReadsRaster s steps j settings' outcome') {value value' : StepValue}
    (hok : outcome.run.result = .ok value) (hok' : outcome'.run.result = .ok value') :
    ¬i < j := by
  intro hij
  rcases h.untouched_or_refused h' hij with hu | hr
  · exact hu.not_ok value hok
  · exact hr.not_ok value' hok'

end ReadsRaster

/-- In every session on a stream whose order is open at first, a raster is decoded from where
it is read, as long as the order is open; at most one is looked at before the others are
refused. -/
theorem readsOnce (data : List UInt8) (image : Image) (steps : List Step) :
    ReadsOnce data ⟨.start data none, image⟩ steps where
  opened := by
    intro i settings outcome h hopen
    rw [h.run]
    exact Raster.decodesFrom (within_before (.start data none) i) hopen
  refused := by
    intro i settings outcome h hfixed
    obtain ⟨o,ho⟩ := Option.ne_none_iff_exists'.mp hfixed
    rw [h.run]
    exact Raster.refused ho
  untouched := by
    intro i settings outcome h hopen
    rw [h.cursor] at hopen
    exact h.untouched hopen
  once := fun i j settings settings' outcome outcome' hij h h' => h.untouched_or_refused h' hij
  single := by
    intro i j settings settings' outcome outcome' value value' h h' hok hok'
    have hij := h.not_lt_of_ok h' hok hok'
    have hji := h'.not_lt_of_ok h hok' hok
    omega

/-- A raster that breaks off behind its first byte, and two that come too late. -/
example :
    ((⟨.start [7,7,1,0] none, .blank 0⟩ : Session).outcomes
      [.skip 2, .raster .standard, .raster .standard, .raster .standard]).map
        (fun o => (match o.run.result with | .ok _ => none | .error fault => some fault,
          o.session.cursor.offset)) =
      [(none,2), (some (.decode (.bufferUnderrun 3 2 1)),3), (some .orderFixed,4),
        (some (.decode (.bufferUnderrun 4 1 0)),4)] := by
  decide +kernel

end Session

end RasterWkb
