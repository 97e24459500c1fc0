import RasterWkb.BandStream
import RasterWkb.Proofs.FieldRuns

/-!
# What becomes of one band

The walk over the bands of a raster does the same at every band: it reads the
type byte and a nodata byte, and then fills a channel, leaves the band out or
ends. This module cuts that visit out of the walk and lists its runs. A visit is
one of four things or underruns; everything about whole walks is an induction
over these cases.
-/
namespace RasterWkb

/-- What holds of the numbers below 256 as bytes holds of every byte. -/
theorem forall_byte {p : UInt8 → Prop} (h : ∀ n < 256, p (UInt8.ofNat n)) (b : UInt8) : p b := by
  have hb := h b.toNat b.toNat_lt
  rwa [UInt8.ofNat_toNat] at hb

theorem Descriptor.tail?_of_typed {d : Descriptor} {t : PixelType} (hon : d.isOffline = false)
    (ht : d.pixelType? = some t) (hs : 0 < t.byteSize) (area : Nat) :
    d.tail? area = some ((t.byteSize - 1 + area * t.byteSize : Nat) : Int) := by
  have hne : t.byteSize ≠ 0 := by omega
  simp only [Descriptor.tail?, hon, ht, Bool.false_eq_true, if_false, if_neg hne,
    Option.some.injEq]
  push_cast
  omega

/-- The size of a record's rest is a moderate number, if it is known. -/
theorem Descriptor.tail?_cases (d : Descriptor) {area : Nat} (harea : area < 2 ^ (60 : Nat)) :
    d.tail? area = none ∨ ∃ n : Nat, n < 2 ^ (64 : Nat) ∧ d.tail? area = some (n : Int) := by
  cases hon : d.isOffline with
  | true => exact .inl (by simp [Descriptor.tail?, hon])
  | false =>
      cases ht : d.pixelType? with
      | none => exact .inl (by simp [Descriptor.tail?, hon, ht])
      | some t =>
          by_cases hs : t.byteSize = 0
          · exact .inl (by simp [Descriptor.tail?, hon, ht, hs])
          · refine .inr ⟨t.byteSize - 1 + area * t.byteSize,?_,
              Descriptor.tail?_of_typed hon ht (by omega) area⟩
            have h8 : t.byteSize ≤ 8 := by cases t <;> decide
            have hm : area * t.byteSize ≤ area * 8 := Nat.mul_le_mul_left area h8
            omega

namespace BandStream

/-- What became of a band. -/
inductive Visit
  | filled
  | leftOut (issue : BandIssue)
  | last (issue : BandIssue)
deriving DecidableEq, Repr

/-- Deals with one band; its nodata byte is kept. -/
def visit (h : Header) (passing : Bool) (first : Option UInt8) (index : Nat) :
    Reading (UInt8 × Visit) := do
  let (band, nodata) ← descriptor index
  match issue? index band with
  | some issue => do
    let goesOn ← leaveOut h passing index band issue
    pure (nodata, if goesOn then .leftOut issue else .last issue)
  | none => do
    compareNodata index nodata first
    fill index h
    pure (nodata, .filled)

/-- The walk from a band on is the visit of that band and what follows from it. -/
theorem bandsFrom_succ (h : Header) (passing : Bool) (first : Option UInt8) (index left : Nat) :
    bandsFrom h passing first index (left + 1) = (do
      let v ← visit h passing first index
      match v.2 with
      | .filled => bandsFrom h passing (some (first.getD v.1)) (index + 1) left
      | .leftOut issue => do
        let issues ← bandsFrom h passing (some (first.getD v.1)) (index + 1) left
        pure (issue :: issues)
      | .last issue => pure [issue]) := by
  simp only [bandsFrom, visit, bind_assoc]
  congr 1
  funext d
  obtain ⟨band,nodata⟩ := d
  cases hissue : issue? index band with
  | none => simp only [bind_assoc, pure_bind]
  | some issue =>
      simp only [bind_assoc, pure_bind]
      congr 1
      funext goesOn
      cases goesOn <;> rfl

variable {h : Header} {passing : Bool} {first : Option UInt8} {index : Nat} {c : Cursor}

/-- The trace of the two bytes that every visit reads. -/
def opening (index : Nat) (offset : Nat) (kind : UInt8) : Trace :=
  [.took (.bandType index) offset 1, .reported (.band index (.ofByte kind)),
    .took (.nodata index) (offset + 1) 1]

theorem rest_behind {kind nodata : UInt8} {rest : List UInt8}
    (hrest : c.rest = kind :: nodata :: rest) : (c.advance 2).rest = rest := by
  rw [Cursor.rest_advance, hrest]
  rfl

theorem rest_behind_one {kind : UInt8} (hrest : c.rest = [kind]) : (c.advance 1).rest = [] := by
  rw [Cursor.rest_advance, hrest]
  rfl

theorem run_descriptor {kind nodata : UInt8} {rest : List UInt8}
    (hrest : c.rest = kind :: nodata :: rest) :
    (descriptor index).run c =
      ⟨.ok (.ofByte kind, nodata), c.advance 2, opening index c.offset kind⟩ := by
  have hkind : (Reading.uint8 (.bandType index)).run c = _ := Reading.run_uint8_cons hrest
  have hnext : (c.advance 1).rest = nodata :: rest := by
    rw [Cursor.rest_advance, hrest]
    rfl
  have hnodata : (Reading.uint8 (.nodata index)).run (c.advance 1) = _ :=
    Reading.run_uint8_cons hnext
  rw [descriptor, Reading.run_bind_of_ok (by rw [hkind]), hkind,
    Reading.run_bind_of_ok (by rw [Reading.run_report]), Reading.run_report,
    Reading.run_bind_of_ok (by rw [hnodata]), hnodata, Cursor.advance_advance]
  rfl

theorem run_descriptor_nil (hrest : c.rest = []) :
    (descriptor index).run c = ⟨.error (.decode (.bufferUnderrun c.offset 1 0)), c, []⟩ := by
  have hkind : (Reading.uint8 (.bandType index)).run c = _ := Reading.run_uint8_nil hrest
  rw [descriptor, Reading.run_bind_of_error (by rw [hkind]), hkind]

/-- A type byte without a nodata byte is reported all the same. -/
theorem run_descriptor_single {kind : UInt8} (hrest : c.rest = [kind]) :
    (descriptor index).run c =
      ⟨.error (.decode (.bufferUnderrun (c.offset + 1) 1 0)), c.advance 1,
        [.took (.bandType index) c.offset 1, .reported (.band index (.ofByte kind))]⟩ := by
  have hkind : (Reading.uint8 (.bandType index)).run c = _ := Reading.run_uint8_cons hrest
  have hnil : (c.advance 1).rest = [] := by
    rw [Cursor.rest_advance, hrest]
    rfl
  have hnodata : (Reading.uint8 (.nodata index)).run (c.advance 1) = _ :=
    Reading.run_uint8_nil hnil
  rw [descriptor, Reading.run_bind_of_ok (by rw [hkind]), hkind,
    Reading.run_bind_of_ok (by rw [Reading.run_report]), Reading.run_report,
    Reading.run_bind_of_error (by rw [hnodata]), hnodata]
  rfl

/-- The report about a nodata byte that differs from the first one. -/
def differing (index : Nat) (nodata : UInt8) : Option UInt8 → Trace
  | none => []
  | some first =>
    if nodata != first then [.reported (.nodataDiffers index nodata first)] else []

theorem run_compareNodata (nodata : UInt8) :
    (compareNodata index nodata first).run c = ⟨.ok (), c, differing index nodata first⟩ := by
  cases first with
  | none => rfl
  | some f => exact Reading.run_reportIf _ _ _

/-- The trace of a decoded band behind its opening. -/
def filling (index offset : Nat) (channel : Channel) (samples : List UInt8) : Trace :=
  [.took (.samples index) offset samples.length, .painted channel samples]

theorem run_plane {kind nodata : UInt8} {rest : List UInt8} {area : Nat}
    (hrest : c.rest = kind :: nodata :: rest) (harea : h.HasArea area) (hlen : area ≤ rest.length) :
    (plane index h).run (c.advance 2) =
      ⟨.ok (rest.take area), c.advance (2 + area),
        [.took (.samples index) (c.offset + 2) area]⟩ := by
  have hbehind := rest_behind hrest
  have hbytes : (Reading.bytes (.samples index) area).run (c.advance 2) = _ :=
    Reading.run_bytes_of_le (by rw [Cursor.remaining, hbehind]; exact hlen)
  rw [plane, harea.area_eq, Reading.run_bind_of_ok (by rw [hbytes]), hbytes,
    if_pos ⟨harea.width,harea.height⟩, hbehind, Cursor.advance_advance, Cursor.offset_advance]
  simp only [Reading.run_pure, List.append_nil]

theorem run_plane_lacking {kind nodata : UInt8} {rest : List UInt8} {area : Nat}
    (hrest : c.rest = kind :: nodata :: rest) (harea : h.HasArea area)
    (hlen : rest.length < area) :
    (plane index h).run (c.advance 2) =
      ⟨.error (.ofUnderrun (c.offset + 2) area rest.length), c.advance 2, []⟩ := by
  have hleft : (c.advance 2).remaining = rest.length := by
    rw [Cursor.remaining, rest_behind hrest]
  have hbytes : (Reading.bytes (.samples index) area).run (c.advance 2) = _ :=
    Reading.run_bytes_lacking (by rw [hleft]; exact hlen)
  rw [plane, harea.area_eq, Reading.run_bind_of_error (by rw [hbytes]), hbytes, hleft,
    Cursor.offset_advance]

theorem run_passTail {kind nodata : UInt8} {rest : List UInt8} {n : Nat}
    (hrest : c.rest = kind :: nodata :: rest)
    (htail : (Descriptor.ofByte kind).tail? h.area = some (n : Int)) (hlen : n ≤ rest.length) :
    (passTail index (.ofByte kind) h.area).run (c.advance 2) =
      ⟨.ok true, c.advance (2 + n), [.took (.passed index) (c.offset + 2) n]⟩ := by
  have hskip : (Reading.skip (.passed index) n).run (c.advance 2) = _ :=
    Reading.run_skip_of_le (by rw [Cursor.remaining, rest_behind hrest]; exact hlen)
  rw [passTail, htail]
  simp only
  rw [Reading.run_bind_of_ok (by rw [hskip]), hskip, Cursor.advance_advance]
  rfl

theorem run_passTail_short {kind nodata : UInt8} {rest : List UInt8} {n : Nat}
    (hrest : c.rest = kind :: nodata :: rest)
    (htail : (Descriptor.ofByte kind).tail? h.area = some (n : Int)) (hsmall : n < 2 ^ (64 : Nat))
    (hlen : rest.length < n) :
    (passTail index (.ofByte kind) h.area).run (c.advance 2) =
      ⟨.error (.decode (.bufferUnderrun (c.offset + 2) n rest.length)), c.advance 2, []⟩ := by
  have hleft : (c.advance 2).remaining = rest.length := by
    rw [Cursor.remaining, rest_behind hrest]
  have hskip : (Reading.skip (.passed index) n).run (c.advance 2) = _ :=
    Reading.run_skip_of_lt (by rw [hleft]; exact hlen) hsmall
  rw [passTail, htail]
  simp only
  rw [Reading.run_bind_of_error (by rw [hskip]), hskip, hleft, Cursor.offset_advance]

theorem run_visit_filled {kind nodata : UInt8} {rest : List UInt8} {area : Nat}
    {channel : Channel} (hrest : c.rest = kind :: nodata :: rest) (harea : h.HasArea area)
    (hissue : issue? index (.ofByte kind) = none) (hchannel : Channel.ofBand? index = some channel)
    (hlen : area ≤ rest.length) :
    (visit h passing first index).run c =
      ⟨.ok (nodata, .filled), c.advance (2 + area),
        opening index c.offset kind ++ (differing index nodata first ++
          filling index (c.offset + 2) channel (rest.take area))⟩ := by
  have hdescriptor : (descriptor index).run c = _ := run_descriptor hrest
  have hplane : (plane index h).run (c.advance 2) = _ := run_plane hrest harea hlen
  have hfill : (fill index h).run (c.advance 2) =
      ⟨.ok (), c.advance (2 + area),
        filling index (c.offset + 2) channel (rest.take area)⟩ := by
    rw [fill, Reading.run_bind_of_ok (by rw [hplane]), hplane, hchannel, filling,
      List.length_take_of_le hlen]
    rfl
  rw [visit, Reading.run_bind_of_ok (by rw [hdescriptor]), hdescriptor]
  simp only [hissue]
  rw [Reading.run_bind_of_ok (by rw [run_compareNodata]), run_compareNodata,
    Reading.run_bind_of_ok (by rw [hfill]), hfill]
  simp only [Reading.run_pure, List.append_nil]

theorem run_visit_lacking {kind nodata : UInt8} {rest : List UInt8} {area : Nat}
    (hrest : c.rest = kind :: nodata :: rest) (harea : h.HasArea area)
    (hissue : issue? index (.ofByte kind) = none) (hlen : rest.length < area) :
    (visit h passing first index).run c =
      ⟨.error (.ofUnderrun (c.offset + 2) area rest.length), c.advance 2,
        opening index c.offset kind ++ differing index nodata first⟩ := by
  have hdescriptor : (descriptor index).run c = _ := run_descriptor hrest
  have hplane : (plane index h).run (c.advance 2) = _ := run_plane_lacking hrest harea hlen
  have hfill : (fill index h).run (c.advance 2) =
      ⟨.error (.ofUnderrun (c.offset + 2) area rest.length), c.advance 2, []⟩ := by
    rw [fill, Reading.run_bind_of_error (by rw [hplane]), hplane]
  rw [visit, Reading.run_bind_of_ok (by rw [hdescriptor]), hdescriptor]
  simp only [hissue]
  rw [Reading.run_bind_of_ok (by rw [run_compareNodata]), run_compareNodata,
    Reading.run_bind_of_error (by rw [hfill]), hfill]
  simp only [List.append_nil]

theorem run_visit_fill_short {kind nodata : UInt8} {rest : List UInt8} {area : Nat}
    (hrest : c.rest = kind :: nodata :: rest) (harea : h.HasArea area)
    (hsmall : area < 2 ^ (60 : Nat)) (hissue : issue? index (.ofByte kind) = none)
    (hlen : rest.length < area) :
    (visit h passing first index).run c =
      ⟨.error (.decode (.bufferUnderrun (c.offset + 2) area rest.length)), c.advance 2,
        opening index c.offset kind ++ differing index nodata first⟩ := by
  rw [run_visit_lacking hrest harea hissue hlen, Fault.ofUnderrun_of_lt (by omega)]

/-- A band that is left out is dealt with right behind its opening. -/
theorem run_visit_of_issue {kind nodata : UInt8} {rest : List UInt8} {issue : BandIssue}
    (hrest : c.rest = kind :: nodata :: rest)
    (hissue : issue? index (.ofByte kind) = some issue) :
    (visit h passing first index).run c =
      let tail := (do
        let goesOn ← leaveOut h passing index (.ofByte kind) issue
        pure (nodata, if goesOn then Visit.leftOut issue else .last issue)).run (c.advance 2)
      ⟨tail.result, tail.cursor, opening index c.offset kind ++ tail.trace⟩ := by
  have hdescriptor : (descriptor index).run c = _ := run_descriptor hrest
  rw [visit, Reading.run_bind_of_ok (by rw [hdescriptor]), hdescriptor]
  simp only [hissue]

theorem run_visit_staying {kind nodata : UInt8} {rest : List UInt8} {issue : BandIssue}
    (hrest : c.rest = kind :: nodata :: rest)
    (hissue : issue? index (.ofByte kind) = some issue) :
    (visit h false first index).run c =
      ⟨.ok (nodata, .leftOut issue), c.advance 2,
        opening index c.offset kind ++ [.reported (.bandLeftOut issue)]⟩ := by
  rw [run_visit_of_issue hrest hissue]
  rfl

/-- What is passed over behind the opening of a left out band of known size. -/
theorem run_visit_passed {kind nodata : UInt8} {rest : List UInt8} {issue : BandIssue} {n : Nat}
    (hrest : c.rest = kind :: nodata :: rest)
    (hissue : issue? index (.ofByte kind) = some issue)
    (htail : (Descriptor.ofByte kind).tail? h.area = some (n : Int)) (hlen : n ≤ rest.length) :
    (visit h true first index).run c =
      ⟨.ok (nodata, .leftOut issue), c.advance (2 + n),
        opening index c.offset kind ++ [.reported (.bandLeftOut issue),
          .took (.passed index) (c.offset + 2) n]⟩ := by
  have hpass : (passTail index (.ofByte kind) h.area).run (c.advance 2) = _ :=
    run_passTail hrest htail hlen
  have hleave : (leaveOut h true index (.ofByte kind) issue).run (c.advance 2) =
      ⟨.ok true, c.advance (2 + n), [.reported (.bandLeftOut issue),
        .took (.passed index) (c.offset + 2) n]⟩ := by
    rw [leaveOut, Reading.run_bind_of_ok (by rw [Reading.run_report]), Reading.run_report]
    simp only [if_true]
    rw [Reading.run_bind_of_ok (by rw [hpass]), hpass]
    rfl
  rw [run_visit_of_issue hrest hissue, Reading.run_bind_of_ok (by rw [hleave]), hleave]
  rfl

theorem run_visit_pass_short {kind nodata : UInt8} {rest : List UInt8} {issue : BandIssue}
    {n : Nat} (hrest : c.rest = kind :: nodata :: rest)
    (hissue : issue? index (.ofByte kind) = some issue)
    (htail : (Descriptor.ofByte kind).tail? h.area = some (n : Int)) (hsmall : n < 2 ^ (64 : Nat))
    (hlen : rest.length < n) :
    (visit h true first index).run c =
      ⟨.error (.decode (.bufferUnderrun (c.offset + 2) n rest.length)), c.advance 2,
        opening index c.offset kind ++ [.reported (.bandLeftOut issue)]⟩ := by
  have hpass : (passTail index (.ofByte kind) h.area).run (c.advance 2) = _ :=
    run_passTail_short hrest htail hsmall hlen
  have hleave : (leaveOut h true index (.ofByte kind) issue).run (c.advance 2) =
      ⟨.error (.decode (.bufferUnderrun (c.offset + 2) n rest.length)), c.advance 2,
        [.reported (.bandLeftOut issue)]⟩ := by
    rw [leaveOut, Reading.run_bind_of_ok (by rw [Reading.run_report]), Reading.run_report]
    simp only [if_true]
    rw [Reading.run_bind_of_error (by rw [hpass]), hpass]
    rfl
  rw [run_visit_of_issue hrest hissue, Reading.run_bind_of_error (by rw [hleave]), hleave]

/-- A record whose size is not known ends the walk when records are passed over. -/
theorem run_visit_last {kind nodata : UInt8} {rest : List UInt8} {issue : BandIssue}
    (hrest : c.rest = kind :: nodata :: rest)
    (hissue : issue? index (.ofByte kind) = some issue)
    (htail : (Descriptor.ofByte kind).tail? h.area = none) :
    (visit h true first index).run c =
      ⟨.ok (nodata, .last issue), c.advance 2,
        opening index c.offset kind ++ [.reported (.bandLeftOut issue),
          .reported (.walkEnded index)]⟩ := by
  have hleave : (leaveOut h true index (.ofByte kind) issue).run (c.advance 2) =
      ⟨.ok false, c.advance 2, [.reported (.bandLeftOut issue),
        .reported (.walkEnded index)]⟩ := by
    rw [leaveOut, passTail, htail]
    rfl
  rw [run_visit_of_issue hrest hissue, Reading.run_bind_of_ok (by rw [hleave]), hleave]
  rfl

/-- All that a visit of a band with a channel can come to. -/
inductive Outcome (h : Header) (passing : Bool) (first : Option UInt8) (index area : Nat)
    (channel : Channel) (c : Cursor) : Run (UInt8 × Visit) → Prop
  | filled {kind nodata : UInt8} {rest : List UInt8} (hrest : c.rest = kind :: nodata :: rest)
      (hissue : issue? index (.ofByte kind) = none) (hlen : area ≤ rest.length) :
      Outcome h passing first index area channel c
        ⟨.ok (nodata, .filled), c.advance (2 + area),
          opening index c.offset kind ++ (differing index nodata first ++
            filling index (c.offset + 2) channel (rest.take area))⟩
  | staying {kind nodata : UInt8} {rest : List UInt8} {issue : BandIssue}
      (hrest : c.rest = kind :: nodata :: rest)
      (hissue : issue? index (.ofByte kind) = some issue) (hmode : passing = false) :
      Outcome h passing first index area channel c
        ⟨.ok (nodata, .leftOut issue), c.advance 2,
          opening index c.offset kind ++ [.reported (.bandLeftOut issue)]⟩
  | passed {kind nodata : UInt8} {rest : List UInt8} {issue : BandIssue} {n : Nat}
      (hrest : c.rest = kind :: nodata :: rest)
      (hissue : issue? index (.ofByte kind) = some issue) (hmode : passing = true)
      (htail : (Descriptor.ofByte kind).tail? area = some (n : Int)) (hlen : n ≤ rest.length) :
      Outcome h passing first index area channel c
        ⟨.ok (nodata, .leftOut issue), c.advance (2 + n),
          opening index c.offset kind ++ [.reported (.bandLeftOut issue),
            .took (.passed index) (c.offset + 2) n]⟩
  | last {kind nodata : UInt8} {rest : List UInt8} {issue : BandIssue}
      (hrest : c.rest = kind :: nodata :: rest)
      (hissue : issue? index (.ofByte kind) = some issue) (hmode : passing = true)
      (htail : (Descriptor.ofByte kind).tail? area = none) :
      Outcome h passing first index area channel c
        ⟨.ok (nodata, .last issue), c.advance 2,
          opening index c.offset kind ++ [.reported (.bandLeftOut issue),
            .reported (.walkEnded index)]⟩
  | empty (hrest : c.rest = []) :
      Outcome h passing first index area channel c
        ⟨.error (.decode (.bufferUnderrun c.offset 1 0)), c, []⟩
  | single {kind : UInt8} (hrest : c.rest = [kind]) :
      Outcome h passing first index area channel c
        ⟨.error (.decode (.bufferUnderrun (c.offset + 1) 1 0)), c.advance 1,
          [.took (.bandType index) c.offset 1, .reported (.band index (.ofByte kind))]⟩
  | fillShort {kind nodata : UInt8} {rest : List UInt8} (hrest : c.rest = kind :: nodata :: rest)
      (hissue : issue? index (.ofByte kind) = none) (hlen : rest.length < area) :
      Outcome h passing first index area channel c
        ⟨.error (.decode (.bufferUnderrun (c.offset + 2) area rest.length)), c.advance 2,
          opening index c.offset kind ++ differing index nodata first⟩
  | passShort {kind nodata : UInt8} {rest : List UInt8} {issue : BandIssue} {n : Nat}
      (hrest : c.rest = kind :: nodata :: rest)
      (hissue : issue? index (.ofByte kind) = some issue) (hmode : passing = true)
      (htail : (Descriptor.ofByte kind).tail? area = some (n : Int)) (hlen : rest.length < n) :
      Outcome h passing first index area channel c
        ⟨.error (.decode (.bufferUnderrun (c.offset + 2) n rest.length)), c.advance 2,
          opening index c.offset kind ++ [.reported (.bandLeftOut issue)]⟩

theorem visit_outcome {area : Nat} {channel : Channel} (harea : h.HasArea area)
    (hsmall : area < 2 ^ (60 : Nat)) (hchannel : Channel.ofBand? index = some channel) :
    Outcome h passing first index area channel c ((visit h passing first index).run c) := by
  match hrest : c.rest with
  | [] =>
      have hnone : (descriptor index).run c = _ := run_descriptor_nil hrest
      rw [visit, Reading.run_bind_of_error (by rw [hnone]), hnone]
      exact .empty hrest
  | [kind] =>
      have hhalf : (descriptor index).run c = _ := run_descriptor_single hrest
      rw [visit, Reading.run_bind_of_error (by rw [hhalf]), hhalf]
      exact .single hrest
  | kind :: nodata :: rest =>
      cases hissue : issue? index (.ofByte kind) with
      | none =>
          by_cases hlen : area ≤ rest.length
          · rw [run_visit_filled hrest harea hissue hchannel hlen]
            exact .filled hrest hissue hlen
          · rw [run_visit_fill_short hrest harea hsmall hissue (Nat.not_le.mp hlen)]
            exact .fillShort hrest hissue (Nat.not_le.mp hlen)
      | some issue =>
          cases hmode : passing with
          | false =>
              rw [run_visit_staying hrest hissue]
              exact .staying hrest hissue rfl
          | true =>
              rcases (Descriptor.ofByte kind).tail?_cases hsmall with htail | ⟨n,hn,htail⟩
              · rw [run_visit_last hrest hissue (by rw [harea.area_eq]; exact htail)]
                exact .last hrest hissue rfl htail
              · have htail' : (Descriptor.ofByte kind).tail? h.area = some (n : Int) := by
                  rw [harea.area_eq]
                  exact htail
                by_cases hlen : n ≤ rest.length
                · rw [run_visit_passed hrest hissue htail' hlen]
                  exact .passed hrest hissue rfl htail hlen
                · rw [run_visit_pass_short hrest hissue htail' hn (Nat.not_le.mp hlen)]
                  exact .passShort hrest hissue rfl htail (Nat.not_le.mp hlen)

end BandStream

end RasterWkb
