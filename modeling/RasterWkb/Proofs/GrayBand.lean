import RasterWkb.Proofs.BandVisit

/-!
# The only band of a gray raster

A raster of one band has no walk: its band is visited once, and whether another
one could be found behind it does not matter. The runs of that visit are listed
as those of a band among several are.
-/
namespace RasterWkb.BandStream

variable {h : Header} {passing : Bool} {c : Cursor} {kind nodata : UInt8} {rest : List UInt8}
variable {issue : BandIssue} {area n : Nat}

/-- The report about a nodata value that is not made use of. -/
def ignored (kind nodata : UInt8) : Trace :=
  if (Descriptor.ofByte kind).hasNodata then [.reported (.nodataIgnored nodata)] else []

/-- The trace of samples that fill the three colors. -/
def graying (offset : Nat) (samples : List UInt8) : Trace :=
  [.took (.samples 0) offset samples.length, .painted .red samples, .painted .green samples,
    .painted .blue samples]

theorem paintOn_ignored (kind nodata : UInt8) (i : Image) :
    (ignored kind nodata).paintOn i = i := by
  unfold ignored
  cases (Descriptor.ofByte kind).hasNodata <;> rfl

theorem paintOn_graying (offset : Nat) (samples : List UInt8) (i : Image) :
    (graying offset samples).paintOn i = ⟨samples, samples, samples, i.alpha⟩ := rfl

theorem run_grayscale_filled (hrest : c.rest = kind :: nodata :: rest) (harea : h.HasArea area)
    (hissue : issue? 0 (.ofByte kind) = none) (hlen : area ≤ rest.length) :
    (grayscale h passing).run c =
      ⟨.ok [], c.advance (2 + area), opening 0 c.offset kind ++
        (ignored kind nodata ++ graying (c.offset + 2) (rest.take area))⟩ := by
  have hdescriptor : (descriptor 0).run c = _ := run_descriptor hrest
  have hplane : (plane 0 h).run (c.advance 2) = _ := run_plane hrest harea hlen
  rw [grayscale, Reading.run_bind_of_ok (by rw [hdescriptor]), hdescriptor]
  simp only [hissue]
  rw [Reading.run_bind_of_ok (by rw [Reading.run_reportIf]), Reading.run_reportIf,
    Reading.run_bind_of_ok (by rw [hplane]), hplane, graying, List.length_take_of_le hlen]
  rfl

theorem run_grayscale_lacking (hrest : c.rest = kind :: nodata :: rest)
    (harea : h.HasArea area) (hissue : issue? 0 (.ofByte kind) = none)
    (hlen : rest.length < area) :
    (grayscale h passing).run c =
      ⟨.error (.ofUnderrun (c.offset + 2) area rest.length), c.advance 2,
        opening 0 c.offset kind ++ ignored kind nodata⟩ := by
  have hdescriptor : (descriptor 0).run c = _ := run_descriptor hrest
  have hplane : (plane 0 h).run (c.advance 2) = _ := run_plane_lacking hrest harea hlen
  rw [grayscale, Reading.run_bind_of_ok (by rw [hdescriptor]), hdescriptor]
  simp only [hissue]
  rw [Reading.run_bind_of_ok (by rw [Reading.run_reportIf]), Reading.run_reportIf,
    Reading.run_bind_of_error (by rw [hplane]), hplane]
  simp only [List.append_nil]
  rfl

theorem run_grayscale_fill_short (hrest : c.rest = kind :: nodata :: rest)
    (harea : h.HasArea area) (hsmall : area < 2 ^ (60 : Nat))
    (hissue : issue? 0 (.ofByte kind) = none) (hlen : rest.length < area) :
    (grayscale h passing).run c =
      ⟨.error (.decode (.bufferUnderrun (c.offset + 2) area rest.length)), c.advance 2,
        opening 0 c.offset kind ++ ignored kind nodata⟩ := by
  rw [run_grayscale_lacking hrest harea hissue hlen, Fault.ofUnderrun_of_lt (by omega)]

theorem run_grayscale_staying (hrest : c.rest = kind :: nodata :: rest)
    (hissue : issue? 0 (.ofByte kind) = some issue) :
    (grayscale h false).run c =
      ⟨.ok [issue], c.advance 2,
        opening 0 c.offset kind ++ [.reported (.bandLeftOut issue)]⟩ := by
  have hdescriptor : (descriptor 0).run c = _ := run_descriptor hrest
  rw [grayscale, Reading.run_bind_of_ok (by rw [hdescriptor]), hdescriptor]
  simp only [hissue]
  rfl

theorem run_grayscale_passed (hrest : c.rest = kind :: nodata :: rest)
    (hissue : issue? 0 (.ofByte kind) = some issue)
    (htail : (Descriptor.ofByte kind).tail? h.area = some (n : Int)) (hlen : n ≤ rest.length) :
    (grayscale h true).run c =
      ⟨.ok [issue], c.advance (2 + n), opening 0 c.offset kind ++
        [.reported (.bandLeftOut issue), .took (.passed 0) (c.offset + 2) n]⟩ := by
  have hdescriptor : (descriptor 0).run c = _ := run_descriptor hrest
  have hpass : (passTail 0 (.ofByte kind) h.area).run (c.advance 2) = _ :=
    run_passTail hrest htail hlen
  rw [grayscale, Reading.run_bind_of_ok (by rw [hdescriptor]), hdescriptor]
  simp only [hissue]
  rw [Reading.run_bind_of_ok (by rw [Reading.run_report]), Reading.run_report]
  simp only [if_true]
  rw [Reading.run_bind_of_ok (by rw [hpass]), hpass]
  rfl

theorem run_grayscale_pass_short (hrest : c.rest = kind :: nodata :: rest)
    (hissue : issue? 0 (.ofByte kind) = some issue)
    (htail : (Descriptor.ofByte kind).tail? h.area = some (n : Int)) (hsmall : n < 2 ^ (64 : Nat))
    (hlen : rest.length < n) :
    (grayscale h true).run c =
      ⟨.error (.decode (.bufferUnderrun (c.offset + 2) n rest.length)), c.advance 2,
        opening 0 c.offset kind ++ [.reported (.bandLeftOut issue)]⟩ := by
  have hdescriptor : (descriptor 0).run c = _ := run_descriptor hrest
  have hpass : (passTail 0 (.ofByte kind) h.area).run (c.advance 2) = _ :=
    run_passTail_short hrest htail hsmall hlen
  rw [grayscale, Reading.run_bind_of_ok (by rw [hdescriptor]), hdescriptor]
  simp only [hissue]
  rw [Reading.run_bind_of_ok (by rw [Reading.run_report]), Reading.run_report]
  simp only [if_true]
  rw [Reading.run_bind_of_error (by rw [hpass]), hpass]
  rfl

/-- A record of unknown size is given up right behind its opening. -/
theorem run_grayscale_last (hrest : c.rest = kind :: nodata :: rest)
    (hissue : issue? 0 (.ofByte kind) = some issue)
    (htail : (Descriptor.ofByte kind).tail? h.area = none) :
    (grayscale h true).run c =
      ⟨.ok [issue], c.advance 2,
        opening 0 c.offset kind ++ [.reported (.bandLeftOut issue)]⟩ := by
  have hdescriptor : (descriptor 0).run c = _ := run_descriptor hrest
  rw [grayscale, Reading.run_bind_of_ok (by rw [hdescriptor]), hdescriptor]
  simp only [hissue, passTail, htail]
  rfl

/-- All that the visit of an only band can come to. -/
inductive GrayOutcome (passing : Bool) (area : Nat) (c : Cursor) : Run (List BandIssue) → Prop
  | filled {kind nodata : UInt8} {rest : List UInt8} (hrest : c.rest = kind :: nodata :: rest)
      (hissue : issue? 0 (.ofByte kind) = none) (hlen : area ≤ rest.length) :
      GrayOutcome passing area c
        ⟨.ok [], c.advance (2 + area), opening 0 c.offset kind ++
          (ignored kind nodata ++ graying (c.offset + 2) (rest.take area))⟩
  | staying {kind nodata : UInt8} {rest : List UInt8} {issue : BandIssue}
      (hrest : c.rest = kind :: nodata :: rest)
      (hissue : issue? 0 (.ofByte kind) = some issue)
      (hmode : passing = true → (Descriptor.ofByte kind).tail? area = none) :
      GrayOutcome passing area c
        ⟨.ok [issue], c.advance 2,
          opening 0 c.offset kind ++ [.reported (.bandLeftOut issue)]⟩
  | passed {kind nodata : UInt8} {rest : List UInt8} {issue : BandIssue} {n : Nat}
      (hrest : c.rest = kind :: nodata :: rest)
      (hissue : issue? 0 (.ofByte kind) = some issue) (hmode : passing = true)
      (htail : (Descriptor.ofByte kind).tail? area = some (n : Int)) (hlen : n ≤ rest.length) :
      GrayOutcome passing area c
        ⟨.ok [issue], c.advance (2 + n), opening 0 c.offset kind ++
          [.reported (.bandLeftOut issue), .took (.passed 0) (c.offset + 2) n]⟩
  | empty (hrest : c.rest = []) :
      GrayOutcome passing area c ⟨.error (.decode (.bufferUnderrun c.offset 1 0)), c, []⟩
  | single {kind : UInt8} (hrest : c.rest = [kind]) :
      GrayOutcome passing area c
        ⟨.error (.decode (.bufferUnderrun (c.offset + 1) 1 0)), c.advance 1,
          [.took (.bandType 0) c.offset 1, .reported (.band 0 (.ofByte kind))]⟩
  | fillShort {kind nodata : UInt8} {rest : List UInt8} (hrest : c.rest = kind :: nodata :: rest)
      (hissue : issue? 0 (.ofByte kind) = none) (hlen : rest.length < area) :
      GrayOutcome passing area c
        ⟨.error (.decode (.bufferUnderrun (c.offset + 2) area rest.length)), c.advance 2,
          opening 0 c.offset kind ++ ignored kind nodata⟩
  | passShort {kind nodata : UInt8} {rest : List UInt8} {issue : BandIssue} {n : Nat}
      (hrest : c.rest = kind :: nodata :: rest)
      (hissue : issue? 0 (.ofByte kind) = some issue) (hmode : passing = true)
      (htail : (Descriptor.ofByte kind).tail? area = some (n : Int)) (hlen : rest.length < n) :
      GrayOutcome passing area c
        ⟨.error (.decode (.bufferUnderrun (c.offset + 2) n rest.length)), c.advance 2,
          opening 0 c.offset kind ++ [.reported (.bandLeftOut issue)]⟩

theorem grayscale_outcome (harea : h.HasArea area) (hsmall : area < 2 ^ (60 : Nat)) :
    GrayOutcome passing area c ((grayscale h passing).run c) := by
  match hrest : c.rest with
  | [] =>
      have hnone : (descriptor 0).run c = _ := run_descriptor_nil hrest
      rw [grayscale, Reading.run_bind_of_error (by rw [hnone]), hnone]
      exact .empty hrest
  | [kind] =>
      have hhalf : (descriptor 0).run c = _ := run_descriptor_single hrest
      rw [grayscale, Reading.run_bind_of_error (by rw [hhalf]), hhalf]
      exact .single hrest
  | kind :: nodata :: rest =>
      cases hissue : issue? 0 (.ofByte kind) with
      | none =>
          by_cases hlen : area ≤ rest.length
          · rw [run_grayscale_filled hrest harea hissue hlen]
            exact .filled hrest hissue hlen
          · rw [run_grayscale_fill_short hrest harea hsmall hissue (Nat.not_le.mp hlen)]
            exact .fillShort hrest hissue (Nat.not_le.mp hlen)
      | some issue =>
          cases hmode : passing with
          | false =>
              rw [run_grayscale_staying hrest hissue]
              exact .staying hrest hissue fun hp => Bool.noConfusion hp
          | true =>
              rcases (Descriptor.ofByte kind).tail?_cases hsmall with htail | ⟨n,hn,htail⟩
              · rw [run_grayscale_last hrest hissue (by rw [harea.area_eq]; exact htail)]
                exact .staying hrest hissue fun _ => htail
              · have htail' : (Descriptor.ofByte kind).tail? h.area = some (n : Int) := by
                  rw [harea.area_eq]
                  exact htail
                by_cases hlen : n ≤ rest.length
                · rw [run_grayscale_passed hrest hissue htail' hlen]
                  exact .passed hrest hissue rfl htail hlen
                · rw [run_grayscale_pass_short hrest hissue htail' hn (Nat.not_le.mp hlen)]
                  exact .passShort hrest hissue rfl htail (Nat.not_le.mp hlen)

/-- The bytes of a record with one byte for each pixel are enough for any band that is
not passed over. -/
theorem grayscale_ok_of_le (harea : h.HasArea area) (hsmall : area < 2 ^ (60 : Nat))
    (hlen : 2 + area ≤ c.remaining) :
    ∃ issues, ((grayscale h false).run c).result = .ok issues := by
  have ho : GrayOutcome false area c ((grayscale h false).run c) :=
    grayscale_outcome harea hsmall
  generalize (grayscale h false).run c = r at ho
  cases ho with
  | filled => exact ⟨[],rfl⟩
  | @staying _ _ _ issue => exact ⟨[issue],rfl⟩
  | passed _ _ hmode => cases hmode
  | empty hrest =>
      rw [Cursor.remaining, hrest, List.length_nil] at hlen
      omega
  | single hrest =>
      rw [Cursor.remaining, hrest, List.length_singleton] at hlen
      omega
  | fillShort hrest _ hshort =>
      rw [Cursor.remaining, hrest, List.length_cons, List.length_cons] at hlen
      omega
  | passShort _ _ hmode => cases hmode

end RasterWkb.BandStream
