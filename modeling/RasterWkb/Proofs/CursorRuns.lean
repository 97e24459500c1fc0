import RasterWkb.Proofs.FieldRuns
import RasterWkb.Proofs.SessionRuns

/-!
# Sequences of cursor operations

The operations of a cursor are reads of numbers and of raw bytes, skips and the choice
of the byte order. What one of them comes to is a short list of cases that exclude one
another: the byte order is looked at first, then the sign of the count, and only then
whether enough bytes are left. An operation that fails leaves the cursor as it was. A
read that succeeds passes over as many bytes as its value takes, and the value, written
again in the order of the stream, is these bytes.

Sequences of operations go on behind failures. They are followed along a session, which
may as well do other things in between.
-/
namespace RasterWkb

namespace Step

/-- The number of bytes that an operation asks for. -/
def size? : Step → Option Int
  | uint8 => some 1
  | uint16 => some Word.uint16.width
  | uint32 => some Word.uint32.width
  | int32 => some Word.int32.width
  | float64 => some Word.float64.width
  | bytes count | skip count => some count
  | _ => none

/-- The multi-byte field that an operation reads. -/
def word? : Step → Option Word
  | uint16 => some .uint16
  | uint32 => some .uint32
  | int32 => some .int32
  | float64 => some .float64
  | _ => none

/-- The step is an operation of the cursor. -/
def IsOperation (step : Step) : Prop :=
  step.size? ≠ none ∨ ∃ o, step = .order o

/-- The value of an operation is written with the bytes, in the order of the stream. A skip has
no value, so nothing is asked of the bytes that it passes over. -/
inductive Spells : Step → Option ByteOrder → StepValue → List UInt8 → Prop
  | uint8 {order : Option ByteOrder} (b : UInt8) : Spells .uint8 order (.integer b.toNat) [b]
  | uint16 {o : ByteOrder} {n : Nat} (h : n < 65536) :
      Spells .uint16 (some o) (.integer n) (o.encode 2 n)
  | uint32 {o : ByteOrder} {n : Nat} (h : n < 4294967296) :
      Spells .uint32 (some o) (.integer n) (o.encode 4 n)
  | int32 {o : ByteOrder} {n : Int} (h : Header.FitsInt32 n) :
      Spells .int32 (some o) (.integer n) (o.encode 4 (Word.pattern32 n))
  | float64 {o : ByteOrder} (d : Double) :
      Spells .float64 (some o) (.real d) (o.encode 8 d.pattern)
  | bytes {order : Option ByteOrder} {count : Int} (value : List UInt8) :
      Spells (.bytes count) order (.bytes value) value
  | skip {order : Option ByteOrder} {count : Int} (passed : List UInt8) :
      Spells (.skip count) order .nothing passed

/-- What an operation at a cursor comes to. The cases exclude one another. -/
inductive OperationOutcome (data : List UInt8) (step : Step) (c : Cursor) :
    Run StepValue → Prop
  | taken {size : Nat} {value : StepValue} (hsize : step.size? = some (size : Int))
      (hready : step.word? ≠ none → c.order ≠ none) (hfit : size ≤ c.remaining)
      (hspell : step.Spells c.order value ((data.drop c.offset).take size)) :
      OperationOutcome data step c ⟨.ok value, c.advance size, [.took .field c.offset size]⟩
  | short {size : Nat} (hsize : step.size? = some (size : Int))
      (hready : step.word? ≠ none → c.order ≠ none) (hlack : c.remaining < size) :
      OperationOutcome data step c ⟨.error (.ofUnderrun c.offset size c.remaining), c, []⟩
  | negative {count : Int} (hsize : step.size? = some count) (hneg : count < 0) :
      OperationOutcome data step c ⟨.error (.ofNegative count), c, []⟩
  | orderOpen {w : Word} (hword : step.word? = some w) (hopen : c.order = none) :
      OperationOutcome data step c ⟨.error (.orderOpen w), c, []⟩
  | chosen {o : ByteOrder} (hstep : step = .order o) (hopen : c.order = none) :
      OperationOutcome data step c ⟨.ok .nothing, { c with order := some o }, []⟩
  | orderFixed {o o' : ByteOrder} (hstep : step = .order o) (hfixed : c.order = some o') :
      OperationOutcome data step c ⟨.error .orderFixed, c, []⟩

namespace OperationOutcome
open Reading
variable {data : List UInt8} {step : Step} {c : Cursor} {r : Run StepValue}

theorem cursor_of_error (h : OperationOutcome data step c r) {fault : Fault}
    (herr : r.result = .error fault) : r.cursor = c := by
  cases h with
  | taken => cases herr
  | chosen => cases herr
  | short | negative | orderOpen | orderFixed => rfl

theorem refused {o o' : ByteOrder} (h : OperationOutcome data (.order o') c r)
    (ho : c.order = some o) : r.result = .error .orderFixed := by
  cases h with
  | taken hsize | short hsize | negative hsize => cases hsize
  | orderOpen hword => cases hword
  | chosen _ hopen =>
      rw [ho] at hopen
      cases hopen
  | orderFixed => rfl

/-- An operation that makes a value of the bytes that it asks for. Whether it asks for any
does not depend on the bytes that are there. -/
theorem of_supplied {α : Type} {d : Cursor.Demand α} {view : α → StepValue}
    (hreading : step.reading = consume .field (Cursor.supply d) >>= fun a => pure (view a))
    (hrefused : ∀ fault, d c.order = .error fault →
      OperationOutcome data step c ⟨.error fault, c, []⟩)
    (hasked : ∀ size make, d c.order = .ok (size, make) →
      step.size? = some (size : Int) ∧ (step.word? ≠ none → c.order ≠ none) ∧
        ∀ bytes : List UInt8, bytes.length = size →
          step.Spells c.order (view (make bytes)) bytes)
    (hc : c.Within data) : OperationOutcome data step c (step.reading.run c) := by
  rw [hreading, run_bind_pure]
  rcases hd : d c.order with fault | ⟨size,make⟩
  · rw [run_supplied_of_error hd]
    exact hrefused fault hd
  · obtain ⟨hsize,hready,hspell⟩ := hasked size make hd
    rcases Nat.lt_or_ge c.remaining size with hlack | hfit
    · rw [run_supplied_of_lt hd hlack]
      exact .short hsize hready hlack
    · rw [run_supplied_of_le hd hfit]
      refine .taken hsize hready hfit ?_
      rw [← hc.rest]
      exact hspell _ (List.length_take_of_le hfit)

theorem of_word {w : Word} (view : Nat → StepValue)
    (hreading : step.reading = word w >>= fun p => pure (view p))
    (hsize : step.size? = some (w.width : Int)) (hword : step.word? = some w)
    (hspell : ∀ (o : ByteOrder) (bytes : List UInt8), bytes.length = w.width →
      step.Spells (some o) (view (o.decode bytes)) bytes)
    (hc : c.Within data) : OperationOutcome data step c (step.reading.run c) := by
  have hstep : (fun c : Cursor => c.word w) = Cursor.supply (.word w) :=
    funext fun c => c.word_eq_supply w
  rw [word, hstep] at hreading
  cases ho : c.order with
  | none =>
      refine of_supplied hreading (fun fault hd => ?_) (fun size make hd => ?_) hc
      · rw [ho] at hd
        cases hd
        exact .orderOpen hword ho
      · rw [ho] at hd
        cases hd
  | some o =>
      refine of_supplied hreading (fun fault hd => ?_) (fun size make hd => ?_) hc
      · rw [ho] at hd
        cases hd
      · rw [ho] at hd ⊢
        cases hd
        exact ⟨hsize,fun _ => Option.some_ne_none o,hspell o⟩

theorem of_bytes {count : Int} (view : List UInt8 → StepValue)
    (hreading : step.reading = Reading.bytes .field count >>= fun bs => pure (view bs))
    (hsize : step.size? = some count) (hword : step.word? = none)
    (hspell : ∀ (order : Option ByteOrder) (bs : List UInt8), step.Spells order (view bs) bs)
    (hc : c.Within data) : OperationOutcome data step c (step.reading.run c) := by
  have hstep : (fun c : Cursor => c.take count) = Cursor.supply (.bytes count) :=
    funext fun c => c.take_eq_supply count
  rw [Reading.bytes, hstep] at hreading
  by_cases hneg : count < 0
  · have hd : Cursor.Demand.bytes count c.order = .error (.ofNegative count) := if_pos hneg
    refine of_supplied hreading (fun fault hfault => ?_) (fun size make hask => ?_) hc
    · obtain rfl : .ofNegative count = fault := Except.error.inj (hd.symm.trans hfault)
      exact .negative hsize hneg
    · cases hd.symm.trans hask
  · have hd : Cursor.Demand.bytes count c.order = .ok (count.toNat, id) := if_neg hneg
    refine of_supplied hreading (fun fault hfault => ?_) (fun size make hask => ?_) hc
    · cases hd.symm.trans hfault
    · cases hd.symm.trans hask
      refine ⟨?_,fun h => absurd hword h,fun bs _ => hspell c.order bs⟩
      rw [hsize, Int.toNat_of_nonneg (Int.not_lt.mp hneg)]

end OperationOutcome

section Values
variable {o : ByteOrder} {bytes : List UInt8}

theorem spells_uint8 {order : Option ByteOrder} (h : bytes.length = 1) :
    Spells .uint8 order (.integer (bytes.headD 0).toNat) bytes := by
  obtain ⟨b,rfl⟩ := List.length_eq_one_iff.mp h
  exact .uint8 b

theorem spells_uint16 (h : bytes.length = 2) :
    Spells .uint16 (some o) (.integer (o.decode bytes)) bytes := by
  have hlt := o.decode_lt bytes
  rw [h] at hlt
  have hspell := Spells.uint16 (o := o) hlt
  rwa [← h, o.encode_decode] at hspell

theorem spells_uint32 (h : bytes.length = 4) :
    Spells .uint32 (some o) (.integer (o.decode bytes)) bytes := by
  have hlt := o.decode_lt bytes
  rw [h] at hlt
  have hspell := Spells.uint32 (o := o) hlt
  rwa [← h, o.encode_decode] at hspell

theorem spells_int32 (h : bytes.length = 4) :
    Spells .int32 (some o) (.integer (Word.signed32 (o.decode bytes))) bytes := by
  have hlt := o.decode_lt bytes
  rw [h] at hlt
  have hfits : Header.FitsInt32 (Word.signed32 (o.decode bytes)) := by
    unfold Header.FitsInt32 Word.signed32
    split <;> omega
  have hspell := Spells.int32 (o := o) hfits
  rwa [Word.pattern32_signed32 hlt, ← h, o.encode_decode] at hspell

theorem spells_float64 (h : bytes.length = 8) :
    Spells .float64 (some o) (.real (.ofPattern (o.decode bytes))) bytes := by
  have hlt := o.decode_lt bytes
  rw [h] at hlt
  have hspell := Spells.float64 (o := o) (.ofPattern (o.decode bytes))
  rwa [Double.pattern_ofPattern hlt, ← h, o.encode_decode] at hspell

end Values

/-- What any operation comes to, at any place of a stream. -/
theorem operation_outcome {data : List UInt8} {step : Step} {c : Cursor}
    (hop : step.IsOperation) (hc : c.Within data) :
    OperationOutcome data step c (step.reading.run c) := by
  cases step with
  | uint8 =>
      have hstep : Cursor.uint8 = Cursor.supply .uint8 := funext Cursor.uint8_eq_supply
      have hreading : uint8.reading = Reading.consume .field (Cursor.supply .uint8) >>= fun b =>
          pure (.integer b.toNat) := by
        rw [← hstep]
        rfl
      refine .of_supplied hreading (fun fault hd => by cases hd) (fun size make hd => ?_) hc
      cases hd
      exact ⟨rfl,fun h => absurd rfl h,fun bytes => spells_uint8⟩
  | uint16 =>
      exact .of_word (w := .uint16) (fun p => .integer p) rfl rfl rfl (fun _ _ => spells_uint16) hc
  | uint32 =>
      exact .of_word (w := .uint32) (fun p => .integer p) rfl rfl rfl (fun _ _ => spells_uint32) hc
  | int32 =>
      refine .of_word (w := .int32) (fun p => .integer (Word.signed32 p)) ?_ rfl rfl
        (fun _ _ => spells_int32) hc
      rw [reading, Reading.int32, bind_assoc]
      simp only [pure_bind]
  | float64 =>
      refine .of_word (w := .float64) (fun p => .real (.ofPattern p)) ?_ rfl rfl
        (fun _ _ => spells_float64) hc
      rw [reading, Reading.float64, bind_assoc]
      simp only [pure_bind]
  | bytes count => exact .of_bytes StepValue.bytes rfl rfl rfl (fun _ => .bytes) hc
  | skip count =>
      refine .of_bytes (fun _ => .nothing) ?_ rfl rfl (fun _ => .skip) hc
      rw [reading, Reading.skip, bind_assoc]
      simp only [pure_bind]
  | order o =>
      rw [reading, Reading.run_bind_pure (f := fun _ : Unit => StepValue.nothing)]
      cases ho : c.order with
      | none =>
          rw [Reading.run_fixOrder_open o ho]
          exact .chosen rfl ho
      | some o' =>
          rw [Reading.run_fixOrder_fixed o ho]
          exact .orderFixed rfl ho
  | header | grayscale | rgb | raster =>
      rcases hop with hsize | ⟨o,ho⟩
      · exact absurd rfl hsize
      · cases ho

end Step

namespace Session
variable {data : List UInt8} {s : Session} {steps : List Step}

/-- What holds along a session: of the places where its cursor stands, of each operation, of
the stretches that were passed over and of the byte order. -/
structure Orderly (data : List UInt8) (s : Session) (steps : List Step) : Prop where
  le : ∀ i, (s.before steps i).cursor.offset ≤ data.length
  total : ∀ i,
    (s.before steps i).cursor.offset + (s.before steps i).cursor.remaining = data.length
  operation : ∀ i step outcome, steps[i]? = some step → step.IsOperation →
    (s.outcomes steps)[i]? = some outcome →
      step.OperationOutcome data (s.before steps i).cursor outcome.run ∧
        (s.before steps (i + 1)).cursor = outcome.run.cursor
  failed : ∀ i step outcome fault, steps[i]? = some step → step.IsOperation →
    (s.outcomes steps)[i]? = some outcome → outcome.run.result = .error fault →
      (s.before steps (i + 1)).cursor = (s.before steps i).cursor
  tiles : Tiles s.cursor.offset ((s.outcomes steps).flatMap fun o => o.run.trace.spans)
    (s.after steps).cursor.offset
  fixed : ∀ i j o, i ≤ j → (s.before steps i).cursor.order = some o →
    (s.before steps j).cursor.order = some o
  refused : ∀ i j o o' outcome, i ≤ j → (s.before steps i).cursor.order = some o →
    steps[j]? = some (.order o') → (s.outcomes steps)[j]? = some outcome →
      outcome.run.result = .error .orderFixed

/-- The outcome of the operation with an index. -/
theorem operation_outcomes {i : Nat} {step : Step} {outcome : StepOutcome}
    (hs : s.cursor.Within data) (hstep : steps[i]? = some step) (hop : step.IsOperation)
    (houtcome : (s.outcomes steps)[i]? = some outcome) :
    step.OperationOutcome data (s.before steps i).cursor outcome.run ∧
      (s.before steps (i + 1)).cursor = outcome.run.cursor := by
  rw [getElem?_outcomes, hstep] at houtcome
  obtain rfl : (s.before steps i).advance step = outcome := Option.some.inj houtcome
  exact ⟨Step.operation_outcome hop (within_before hs i),by rw [before_succ hstep]; rfl⟩

/-- Every session is orderly, from every cursor at the start of a stream. -/
theorem orderly (data : List UInt8) (order : Option ByteOrder) (image : Image)
    (steps : List Step) : Orderly data ⟨.start data order, image⟩ steps := by
  have hs : (Cursor.start data order).Within data := .start data order
  refine ⟨fun i => (within_before hs i).le,fun i => (within_before hs i).total,?_,?_,
    tiles_outcomes _ steps,fun i j o => order_before,?_⟩
  · intro i step outcome hstep hop houtcome
    exact operation_outcomes hs hstep hop houtcome
  · intro i step outcome fault hstep hop houtcome herr
    obtain ⟨hrun,hnext⟩ := operation_outcomes hs hstep hop houtcome
    rw [hnext, hrun.cursor_of_error herr]
  · intro i j o o' outcome hij hi hstep houtcome
    have hrun := (operation_outcomes hs hstep (.inr ⟨o',rfl⟩) houtcome).1
    exact hrun.refused (order_before hij hi)

/-- The order is looked for before the bytes, and what fails consumes nothing. -/
example :
    ((⟨.start [1,2,3] none, .blank 0⟩ : Session).outcomes
      [.float64, .order .big, .uint16, .order .little, .int32, .uint8, .uint8]).map
        (fun o => (o.run.result.toOption, o.session.cursor.offset)) =
      [(none,0), (some .nothing,0), (some (.integer 258),2), (none,2), (none,2),
        (some (.integer 3),3), (none,3)] := by
  decide +kernel

end Session

end RasterWkb
