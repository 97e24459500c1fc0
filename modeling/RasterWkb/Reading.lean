import RasterWkb.Cursor
import RasterWkb.Event
import RasterWkb.Image

/-!
# Reading with an account of what was done

A reading takes a cursor to a run: a value or a fault, the cursor afterwards and
a trace. The trace lists in order which bytes were consumed and what for, what
was reported and which planes were painted. It is kept when the reading ends in
a fault, so that both the diagnostics and the painted planes of a reading that
broke off are known.

Readings are sequenced as values of a monad. The first fault ends the sequence.
-/
namespace RasterWkb

/-- What a consumed stretch of bytes was taken for. -/
inductive Role
  /-- A field or raw bytes that belong to no band. -/
  | field
  | bandType (band : Nat)
  | nodata (band : Nat)
  | samples (band : Nat)
  /-- The rest of a record that is not decoded. -/
  | passed (band : Nat)
deriving DecidableEq, Repr

/-- One entry of a trace. -/
inductive Mark
  | took (role : Role) (offset size : Nat)
  | reported (event : Event)
  | painted (channel : Channel) (plane : List UInt8)
deriving DecidableEq, Repr

namespace Mark

def event? : Mark → Option Event
  | reported event => some event
  | _ => none

/-- Offset and size of a consumed stretch. -/
def span? : Mark → Option (Nat × Nat)
  | took _ offset size => some (offset, size)
  | _ => none

/-- The effect of a mark on an image. -/
def paintOn (i : Image) : Mark → Image
  | painted channel plane => i.paint channel plane
  | _ => i

end Mark

abbrev Trace := List Mark

namespace Trace

/-- The events of a trace. -/
def events (t : Trace) : List Event :=
  t.filterMap Mark.event?

/-- The log lines of a trace. -/
def lines (t : Trace) : List String :=
  t.events.map Event.line

/-- The consumed stretches of a trace. -/
def spans (t : Trace) : List (Nat × Nat) :=
  t.filterMap Mark.span?

/-- An image after the paintings of a trace. -/
def paintOn (t : Trace) (i : Image) : Image :=
  t.foldl Mark.paintOn i

@[simp] theorem events_append (s t : Trace) : events (s ++ t) = events s ++ events t := by
  simp [events]

@[simp] theorem lines_append (s t : Trace) : lines (s ++ t) = lines s ++ lines t := by
  simp [lines]

@[simp] theorem spans_append (s t : Trace) : spans (s ++ t) = spans s ++ spans t := by
  simp [spans]

@[simp] theorem paintOn_append (s t : Trace) (i : Image) :
    paintOn (s ++ t) i = paintOn t (paintOn s i) := by
  simp [paintOn]

end Trace

/-- What a reading came to. -/
structure Run (α : Type) where
  result : Except Fault α
  cursor : Cursor
  trace : Trace

/-- A way to read from a cursor. -/
def Reading (α : Type) : Type :=
  Cursor → Run α

namespace Reading

variable {α β : Type}

/-- The run of a reading from a cursor. -/
def run (r : Reading α) (c : Cursor) : Run α :=
  r c

/-- Reads nothing. -/
def done (a : α) : Reading α := fun c =>
  ⟨.ok a, c, []⟩

/-- Reads on, from where the first reading left the cursor, if it did not fail. -/
def andThen (r : Reading α) (next : α → Reading β) : Reading β := fun c =>
  let first := r c
  match first.result with
  | .error fault => ⟨.error fault, first.cursor, first.trace⟩
  | .ok a =>
    let second := next a first.cursor
    ⟨second.result, second.cursor, first.trace ++ second.trace⟩

instance : Monad Reading where
  pure := done
  bind := andThen

@[simp] theorem run_pure (a : α) (c : Cursor) : (pure a : Reading α).run c = ⟨.ok a, c, []⟩ := rfl

/-- Readings that run alike from every cursor are the same. -/
theorem ext {r s : Reading α} (h : ∀ c, r.run c = s.run c) : r = s :=
  funext h

theorem run_bind (r : Reading α) (next : α → Reading β) (c : Cursor) :
    (r >>= next).run c =
      match (r.run c).result with
      | .error fault => ⟨.error fault, (r.run c).cursor, (r.run c).trace⟩
      | .ok a =>
        ⟨((next a).run (r.run c).cursor).result, ((next a).run (r.run c).cursor).cursor,
          (r.run c).trace ++ ((next a).run (r.run c).cursor).trace⟩ := rfl

theorem run_bind_of_ok {r : Reading α} {c : Cursor} {a : α} (h : (r.run c).result = .ok a)
    (next : α → Reading β) :
    (r >>= next).run c =
      ⟨((next a).run (r.run c).cursor).result, ((next a).run (r.run c).cursor).cursor,
        (r.run c).trace ++ ((next a).run (r.run c).cursor).trace⟩ := by
  rw [run_bind, h]

theorem run_bind_of_error {r : Reading α} {c : Cursor} {fault : Fault}
    (h : (r.run c).result = .error fault) (next : α → Reading β) :
    (r >>= next).run c = ⟨.error fault, (r.run c).cursor, (r.run c).trace⟩ := by
  rw [run_bind, h]

theorem pure_bind (a : α) (next : α → Reading β) : pure a >>= next = next a := by
  apply ext
  intro c
  rw [run_bind_of_ok (r := pure a) rfl]
  rfl

theorem bind_pure (r : Reading α) : r >>= pure = r := by
  apply ext
  intro c
  cases h : (r.run c).result with
  | error fault =>
    rw [run_bind_of_error h, ← h]
  | ok a =>
    rw [run_bind_of_ok h, run_pure, List.append_nil, ← h]

theorem bind_assoc {γ : Type} (r : Reading α) (f : α → Reading β) (g : β → Reading γ) :
    r >>= f >>= g = r >>= fun a => f a >>= g := by
  apply ext
  intro c
  cases h : (r.run c).result with
  | error fault =>
    have first : ((r >>= f).run c).result = .error fault := by rw [run_bind_of_error h]
    rw [run_bind_of_error first, run_bind_of_error h, run_bind_of_error h]
  | ok a =>
    rw [run_bind_of_ok h]
    cases hf : ((f a).run (r.run c).cursor).result with
    | error fault =>
      have first : ((r >>= f).run c).result = .error fault := by rw [run_bind_of_ok h, hf]
      rw [run_bind_of_error first, run_bind_of_error hf, run_bind_of_ok h]
    | ok b =>
      have first : ((r >>= f).run c).result = .ok b := by rw [run_bind_of_ok h, hf]
      rw [run_bind_of_ok first, run_bind_of_ok hf, run_bind_of_ok h, List.append_assoc]

instance : LawfulMonad Reading :=
  LawfulMonad.mk' Reading bind_pure pure_bind bind_assoc

def fail (fault : Fault) : Reading α := fun c =>
  ⟨.error fault, c, []⟩

/-- A value or fault that was found without reading. -/
def ofExcept : Except Fault α → Reading α
  | .ok a => done a
  | .error fault => fail fault

def report (event : Event) : Reading Unit := fun c =>
  ⟨.ok (), c, [.reported event]⟩

/-- Reports an event under a condition. -/
def reportIf (condition : Bool) (event : Event) : Reading Unit :=
  if condition then report event else done ()

def paint (channel : Channel) (plane : List UInt8) : Reading Unit := fun c =>
  ⟨.ok (), c, [.painted channel plane]⟩

/-- Reports an event and ends in a fault. -/
def reject (event : Event) (fault : Fault) : Reading α := do
  report event
  fail fault

/-- Goes on only under a condition; otherwise reports and ends in a fault. -/
def require (condition : Bool) (event : Event) (fault : Fault) : Reading Unit :=
  if condition then done () else reject event fault

/-- Number of bytes left to read. -/
def remaining : Reading Nat := fun c =>
  ⟨.ok c.remaining, c, []⟩

/-- A step of the cursor, with the bytes it passes over entered into the trace. -/
def consume (role : Role) (step : Cursor → Except Fault (α × Cursor)) : Reading α := fun c =>
  match step c with
  | .ok (a, after) => ⟨.ok a, after, [.took role c.offset (after.offset - c.offset)]⟩
  | .error fault => ⟨.error fault, c, []⟩

def bytes (role : Role) (count : Int) : Reading (List UInt8) :=
  consume role (·.take count)

/-- Passes over bytes. -/
def skip (role : Role) (count : Int) : Reading Unit := do
  let _ ← bytes role count
  pure ()

def uint8 (role : Role) : Reading UInt8 :=
  consume role Cursor.uint8

def word (w : Word) : Reading Nat :=
  consume .field (·.word w)

def uint16 : Reading Nat :=
  word .uint16

def uint32 : Reading Nat :=
  word .uint32

def int32 : Reading Int := do
  let pattern ← word .int32
  pure (Word.signed32 pattern)

def float64 : Reading Double := do
  let pattern ← word .float64
  pure (Double.ofPattern pattern)

def fixOrder (o : ByteOrder) : Reading Unit := fun c =>
  match c.fixOrder o with
  | .ok after => ⟨.ok (), after, []⟩
  | .error fault => ⟨.error fault, c, []⟩

/-- A reading together with its own trace. -/
def traced (r : Reading α) : Reading (α × Trace) := fun c =>
  let first := r c
  match first.result with
  | .error fault => ⟨.error fault, first.cursor, first.trace⟩
  | .ok a => ⟨.ok (a, first.trace), first.cursor, first.trace⟩

end Reading

end RasterWkb
