import RasterWkb.Reading
import Mathlib.Algebra.GroupWithZero.Nat

/-!
# Runs of readings of fixed size

A reading that takes fields of known widths one behind the other either has
enough bytes, and then its value and its trace are known, or it stops at the
first field that does not fit. Both are stated once for a sequence of fields
and composed along bind; no list of reads is ever split into cases by hand.
-/
namespace RasterWkb

/-- The run broke off because the bytes that it needed next are not there. -/
def Run.Underran {α : Type} (r : Run α) : Prop :=
  ∃ needed, r.cursor.remaining < needed ∧ r.result =
    .error (.decode (.bufferUnderrun r.cursor.offset needed r.cursor.remaining))

namespace Cursor

@[simp] theorem advance_advance (c : Cursor) (m n : Nat) :
    (c.advance m).advance n = c.advance (m + n) := by
  simp only [advance, List.drop_drop, Nat.add_assoc]

@[simp] theorem advance_zero (c : Cursor) : c.advance 0 = c := rfl

@[simp] theorem remaining_advance (c : Cursor) (n : Nat) :
    (c.advance n).remaining = c.remaining - n := by
  simp only [remaining, rest_advance, List.length_drop]

end Cursor

namespace Reading
variable {α β : Type}

@[simp] theorem run_report (e : Event) (c : Cursor) :
    (report e).run c = ⟨.ok (), c, [.reported e]⟩ := rfl

theorem run_traced (r : Reading α) (c : Cursor) :
    (traced r).run c =
      ⟨(r.run c).result.map fun a => (a, (r.run c).trace), (r.run c).cursor, (r.run c).trace⟩ := by
  simp only [run, traced]
  cases (r c).result <;> rfl

/-- The run of a reading whose value is only looked at. -/
theorem run_bind_pure (r : Reading α) (f : α → β) (c : Cursor) :
    (r >>= fun a => pure (f a)).run c =
      ⟨(r.run c).result.map f, (r.run c).cursor, (r.run c).trace⟩ := by
  cases h : (r.run c).result with
  | error fault =>
      rw [run_bind_of_error h]
      rfl
  | ok a =>
      rw [run_bind_of_ok h, run_pure, List.append_nil]
      rfl

theorem run_reportIf (b : Bool) (e : Event) (c : Cursor) :
    (reportIf b e).run c = ⟨.ok (), c, if b then [.reported e] else []⟩ := by
  cases b <;> rfl

theorem run_bytes_of_le {role : Role} {c : Cursor} {n : Nat} (h : n ≤ c.remaining) :
    (bytes role n).run c = ⟨.ok (c.rest.take n), c.advance n, [.took role c.offset n]⟩ := by
  have hs : c.take n = .ok (c.rest.take n, c.advance n) := Cursor.take_of_le h
  simp only [run, bytes, consume, hs, Cursor.offset_advance, Nat.add_sub_cancel_left]

theorem run_bytes_lacking {role : Role} {c : Cursor} {n : Nat} (h : c.remaining < n) :
    (bytes role n).run c = ⟨.error (.ofUnderrun c.offset n c.remaining), c, []⟩ := by
  simp only [run, bytes, consume, Cursor.take_of_lt h]

theorem run_bytes_of_lt {role : Role} {c : Cursor} {n : Nat} (h : c.remaining < n)
    (hn : n < 2 ^ (64 : Nat)) :
    (bytes role n).run c =
      ⟨.error (.decode (.bufferUnderrun c.offset n c.remaining)), c, []⟩ := by
  rw [run_bytes_lacking h, Fault.ofUnderrun_of_lt hn]

theorem run_skip_of_le {role : Role} {c : Cursor} {n : Nat} (h : n ≤ c.remaining) :
    (skip role n).run c = ⟨.ok (), c.advance n, [.took role c.offset n]⟩ := by
  have hb : (bytes role n).run c = _ := run_bytes_of_le h
  rw [skip, run_bind_of_ok (by rw [hb]), hb]
  rfl

theorem run_skip_of_lt {role : Role} {c : Cursor} {n : Nat} (h : c.remaining < n)
    (hn : n < 2 ^ (64 : Nat)) :
    (skip role n).run c =
      ⟨.error (.decode (.bufferUnderrun c.offset n c.remaining)), c, []⟩ := by
  have hb : (bytes role n).run c = _ := run_bytes_of_lt h hn
  rw [skip, run_bind_of_error (by rw [hb]), hb]

theorem run_uint8_cons {role : Role} {c : Cursor} {b : UInt8} {bs : List UInt8}
    (h : c.rest = b :: bs) :
    (uint8 role).run c = ⟨.ok b, c.advance 1, [.took role c.offset 1]⟩ := by
  have hs : c.uint8 = .ok (b, c.advance 1) := by rw [Cursor.uint8, h]
  simp only [run, uint8, consume, hs, Cursor.offset_advance, Nat.add_sub_cancel_left]

theorem run_uint8_nil {role : Role} {c : Cursor} (h : c.rest = []) :
    (uint8 role).run c = ⟨.error (.decode (.bufferUnderrun c.offset 1 0)), c, []⟩ := by
  have hs : c.uint8 = .error (.decode (.bufferUnderrun c.offset 1 0)) := by
    rw [Cursor.uint8, h]
  simp only [run, uint8, consume, hs]

theorem run_word_of_le {w : Word} {o : ByteOrder} {c : Cursor} (ho : c.order = some o)
    (h : w.width ≤ c.remaining) :
    (word w).run c =
      ⟨.ok (o.decode (c.rest.take w.width)), c.advance w.width,
        [.took .field c.offset w.width]⟩ := by
  have hs : c.word w = .ok (o.decode (c.rest.take w.width), c.advance w.width) := by
    simp only [Cursor.word, ho, Cursor.take_of_le h, Except.map]
  simp only [run, word, consume, hs, Cursor.offset_advance, Nat.add_sub_cancel_left]

theorem run_word_of_lt {w : Word} {o : ByteOrder} {c : Cursor} (ho : c.order = some o)
    (h : c.remaining < w.width) :
    (word w).run c =
      ⟨.error (.decode (.bufferUnderrun c.offset w.width c.remaining)), c, []⟩ := by
  have hw : w.width < 2 ^ (64 : Nat) := by cases w <;> decide
  have hs : c.word w = .error (.decode (.bufferUnderrun c.offset w.width c.remaining)) := by
    simp only [Cursor.word, ho, Cursor.take_of_lt h, Fault.ofUnderrun_of_lt hw, Except.map]
  simp only [run, word, consume, hs]

/-- The trace of fields of the given widths, one behind the other. -/
def fieldMarks (offset : Nat) : List Nat → Trace
  | [] => []
  | w :: ws => .took .field offset w :: fieldMarks (offset + w) ws

theorem fieldMarks_append (offset : Nat) (ws us : List Nat) :
    fieldMarks offset (ws ++ us) = fieldMarks offset ws ++ fieldMarks (offset + ws.sum) us := by
  induction ws generalizing offset with
  | nil => simp [fieldMarks]
  | cons w ws ih => simp [fieldMarks, ih, Nat.add_assoc]

/-- The reading takes fields of the given widths in the order, and its value is
what the view finds in the bytes. If bytes are lacking, the first field that does
not fit ends it and the fields in front of that one are consumed. -/
structure ReadsFields (o : ByteOrder) (widths : List Nat) (view : List UInt8 → α)
    (r : Reading α) : Prop where
  enough : ∀ c : Cursor, c.order = some o → widths.sum ≤ c.remaining →
    r.run c = ⟨.ok (view c.rest), c.advance widths.sum, fieldMarks c.offset widths⟩
  short : ∀ c : Cursor, c.order = some o → c.remaining < widths.sum →
    ∃ before w after, widths = before ++ w :: after ∧
      before.sum ≤ c.remaining ∧ c.remaining < before.sum + w ∧
      r.run c = ⟨.error (.decode (.bufferUnderrun (c.offset + before.sum) w
        (c.remaining - before.sum))), c.advance before.sum, fieldMarks c.offset before⟩

namespace ReadsFields
variable {o : ByteOrder} {ws us : List Nat}

theorem pure (a : α) : ReadsFields o [] (fun _ => a) (Pure.pure a : Reading α) where
  enough := fun _ _ _ => rfl
  short := fun c _ h => absurd h (Nat.not_lt_zero c.remaining)

theorem word (w : Word) :
    ReadsFields o [w.width] (fun bytes => o.decode (bytes.take w.width)) (Reading.word w) where
  enough := by
    intro c ho h
    simp only [List.sum_cons, List.sum_nil, Nat.add_zero] at h ⊢
    rw [run_word_of_le ho h]
    rfl
  short := by
    intro c ho h
    simp only [List.sum_cons, List.sum_nil, Nat.add_zero] at h
    refine ⟨[], w.width, [], rfl, Nat.zero_le _, by simpa using h, ?_⟩
    rw [run_word_of_lt ho h]
    rfl

/-- The second reading finds its bytes behind those of the first. -/
theorem bind {r : Reading α} {view : List UInt8 → α} {next : α → Reading β}
    {view' : α → List UInt8 → β} (hr : ReadsFields o ws view r)
    (hn : ∀ a, ReadsFields o us (view' a) (next a)) :
    ReadsFields o (ws ++ us) (fun bytes => view' (view bytes) (bytes.drop ws.sum))
      (r >>= next) where
  enough := by
    intro c ho h
    rw [List.sum_append] at h
    have h₁ := hr.enough c ho (by omega)
    have h₂ := (hn (view c.rest)).enough (c.advance ws.sum) ho (by
      rw [Cursor.remaining_advance]
      omega)
    rw [run_bind_of_ok (by rw [h₁]), h₁, h₂, fieldMarks_append]
    simp only [Cursor.advance_advance, List.sum_append, Cursor.rest_advance,
      Cursor.offset_advance]
  short := by
    intro c ho h
    by_cases hfirst : c.remaining < ws.sum
    · obtain ⟨before,w,after,hws,hle,hlt,hrun⟩ := hr.short c ho hfirst
      refine ⟨before,w,after ++ us,by rw [hws]; simp,hle,hlt,?_⟩
      rw [run_bind_of_error (by rw [hrun]), hrun]
    · have hsplit : ws.sum ≤ c.remaining := Nat.not_lt.mp hfirst
      have h₁ := hr.enough c ho hsplit
      rw [List.sum_append] at h
      obtain ⟨before,w,after,hus,hle,hlt,hrun⟩ :=
        (hn (view c.rest)).short (c.advance ws.sum) ho (by
          rw [Cursor.remaining_advance]
          omega)
      rw [Cursor.remaining_advance] at hle hlt
      refine ⟨ws ++ before,w,after,by rw [hus, List.append_assoc],?_,?_,?_⟩
      · rw [List.sum_append]
        omega
      · rw [List.sum_append]
        omega
      · rw [run_bind_of_ok (by rw [h₁]), h₁, hrun]
        simp only [Cursor.offset_advance, Cursor.remaining_advance, Cursor.advance_advance,
          List.sum_append, fieldMarks_append, Nat.add_assoc, Nat.sub_sub]

theorem uint16 : ReadsFields o [2] (fun bytes => o.decode (bytes.take 2)) Reading.uint16 :=
  word .uint16

theorem int32 :
    ReadsFields o [4] (fun bytes => Word.signed32 (o.decode (bytes.take 4))) Reading.int32 :=
  bind (word .int32) fun p => pure (Word.signed32 p)

theorem float64 :
    ReadsFields o [8] (fun bytes => Double.ofPattern (o.decode (bytes.take 8)))
      Reading.float64 :=
  bind (word .float64) fun p => pure (Double.ofPattern p)

/-- Fields that are not all there leave the run underrun, its order unchanged. -/
theorem underran {r : Reading α} {view : List UInt8 → α} (hr : ReadsFields o ws view r)
    {c : Cursor} (ho : c.order = some o) (h : c.remaining < ws.sum) :
    (r.run c).Underran := by
  obtain ⟨before,w,after,-,hle,hlt,hrun⟩ := hr.short c ho h
  refine ⟨w,?_,?_⟩
  · rw [hrun, Cursor.remaining_advance]
    omega
  · rw [hrun, Cursor.remaining_advance, Cursor.offset_advance]

end ReadsFields

end Reading

theorem Run.Underran.bind {α β : Type} {r : Reading α} {c : Cursor}
    (h : (r.run c).Underran) (next : α → Reading β) : ((r >>= next).run c).Underran := by
  obtain ⟨needed,hlt,herr⟩ := h
  rw [Reading.run_bind_of_error herr]
  exact ⟨needed,hlt,rfl⟩

/-- A fault at the cursor itself, for more bytes than stand behind it. -/
theorem Run.underran_behind {α : Type} {c : Cursor} {bs : List UInt8} {needed : Nat} {t : Trace}
    (hrest : c.rest = bs) (hlt : bs.length < needed) :
    (⟨.error (.decode (.bufferUnderrun c.offset needed bs.length)), c, t⟩ : Run α).Underran := by
  have hremaining : c.remaining = bs.length := by rw [Cursor.remaining, hrest]
  rw [← hremaining] at hlt ⊢
  exact ⟨needed,hlt,rfl⟩

namespace Reading

theorem uint8_underran {role : Role} {c : Cursor} (h : c.rest = []) :
    ((uint8 role).run c).Underran := by
  rw [run_uint8_nil h]
  exact Run.underran_behind h Nat.zero_lt_one

end Reading

end RasterWkb
