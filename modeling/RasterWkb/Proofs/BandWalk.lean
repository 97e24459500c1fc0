import RasterWkb.Proofs.BandVisit

/-!
# Walks over bands

A walk is a visit and the walk that follows it, or it ends with the visit. From
the list of what a visit can come to, an induction over the number of bands
gives what every walk keeps: the size of the planes, the channels of other bands
and those of the bands that it leaves out, and the order of what it reports.
-/
namespace RasterWkb

theorem Channel.ofBand?_eq_some {band : Nat} {channel : Channel} :
    Channel.ofBand? band = some channel ↔ channel.position = band := by
  constructor
  · intro h
    unfold Channel.ofBand? at h
    split at h <;> cases h <;> rfl
  · intro h
    subst h
    cases channel <;> rfl

namespace BandStream
variable {area : Nat} {h : Header} {passing : Bool} {c : Cursor} {index : Nat}

/-- A run that goes on where issues were found and a trace was made before. -/
def resume (issues : List BandIssue) (t : Trace) (after : Run (List BandIssue)) :
    Run (List BandIssue) :=
  ⟨after.result.map (issues ++ ·), after.cursor, t ++ after.trace⟩

theorem resume_nil (r : Run (List BandIssue)) : resume [] [] r = r := by
  obtain ⟨result,cursor,trace⟩ := r
  cases result <;> rfl

theorem resume_nil_result (t : Trace) (r : Run (List BandIssue)) :
    (resume [] t r).result = r.result := by
  obtain ⟨result,cursor,trace⟩ := r
  cases result <;> rfl

theorem resume_resume (xs ys : List BandIssue) (t u : Trace) (r : Run (List BandIssue)) :
    resume xs t (resume ys u r) = resume (xs ++ ys) (t ++ u) r := by
  obtain ⟨result,cursor,trace⟩ := r
  cases result <;> simp [resume, Except.map]

theorem ok_of_resume {xs ys : List BandIssue} {t : Trace} {r : Run (List BandIssue)}
    (h : (resume xs t r).result = .ok ys) : ∃ zs, r.result = .ok zs ∧ ys = xs ++ zs := by
  obtain ⟨result,cursor,trace⟩ := r
  cases result with
  | error fault => cases h
  | ok zs =>
      cases h
      exact ⟨zs,rfl,rfl⟩

/-- What the walk does behind the visit of a band. -/
theorem run_bandsFrom_filled {first : Option UInt8} {left : Nat} {nodata : UInt8} {c' : Cursor}
    {t : Trace} (hv : (visit h passing first index).run c = ⟨.ok (nodata, .filled), c', t⟩) :
    (bandsFrom h passing first index (left + 1)).run c =
      resume [] t
        ((bandsFrom h passing (some (first.getD nodata)) (index + 1) left).run c') := by
  rw [bandsFrom_succ, Reading.run_bind_of_ok (by rw [hv]), hv]
  cases hr : ((bandsFrom h passing (some (first.getD nodata)) (index + 1) left).run c').result <;>
    simp only [resume, hr, Except.map, List.nil_append]

theorem run_bandsFrom_leftOut {first : Option UInt8} {left : Nat} {nodata : UInt8}
    {issue : BandIssue} {c' : Cursor} {t : Trace}
    (hv : (visit h passing first index).run c = ⟨.ok (nodata, .leftOut issue), c', t⟩) :
    (bandsFrom h passing first index (left + 1)).run c =
      resume [issue] t
        ((bandsFrom h passing (some (first.getD nodata)) (index + 1) left).run c') := by
  rw [bandsFrom_succ, Reading.run_bind_of_ok (by rw [hv]), hv]
  cases hr : ((bandsFrom h passing (some (first.getD nodata)) (index + 1) left).run c').result with
  | error fault => simp only [Reading.run_bind_of_error hr, resume, hr, Except.map]
  | ok issues =>
      simp only [Reading.run_bind_of_ok hr, resume, hr, Except.map, Reading.run_pure,
        List.append_nil, List.singleton_append]

theorem run_bandsFrom_last {first : Option UInt8} {left : Nat} {nodata : UInt8}
    {issue : BandIssue} {c' : Cursor} {t : Trace}
    (hv : (visit h passing first index).run c = ⟨.ok (nodata, .last issue), c', t⟩) :
    (bandsFrom h passing first index (left + 1)).run c = ⟨.ok [issue], c', t⟩ := by
  rw [bandsFrom_succ, Reading.run_bind_of_ok (by rw [hv]), hv]
  simp only [Reading.run_pure, List.append_nil]

theorem channel_of_lt {index : Nat} (hi : index < 4) :
    ∃ channel, Channel.ofBand? index = some channel := by
  match index, hi with
  | 0, _ => exact ⟨.red,rfl⟩
  | 1, _ => exact ⟨.green,rfl⟩
  | 2, _ => exact ⟨.blue,rfl⟩
  | 3, _ => exact ⟨.alpha,rfl⟩

section Painting
variable (i : Image)

@[simp] theorem paintOn_opening (index offset : Nat) (kind : UInt8) :
    (opening index offset kind).paintOn i = i := rfl

@[simp] theorem paintOn_differing (index : Nat) (nodata : UInt8) (first : Option UInt8) :
    (differing index nodata first).paintOn i = i := by
  cases first with
  | none => rfl
  | some f =>
      simp only [differing]
      cases nodata != f <;> rfl

@[simp] theorem paintOn_filling (index offset : Nat) (channel : Channel) (samples : List UInt8) :
    (filling index offset channel samples).paintOn i = i.paint channel samples := rfl

end Painting

/-- The issues concern different bands in rising order, all of them among the given ones. -/
structure Rising (index left : Nat) (issues : List BandIssue) : Prop where
  sorted : (issues.map BandIssue.band).Pairwise (· < ·)
  within : ∀ issue ∈ issues, index ≤ issue.band ∧ issue.band < index + left

theorem issue?_band {index : Nat} {band : Descriptor} {issue : BandIssue}
    (h : issue? index band = some issue) : issue.band = index := by
  unfold issue? at h
  split at h
  · cases h
    rfl
  · split at h
    · cases h
    · cases h
      rfl

theorem Rising.nil (index left : Nat) : Rising index left [] :=
  ⟨List.Pairwise.nil,fun _ h => absurd h List.not_mem_nil⟩

theorem Rising.later {index left : Nat} {issues : List BandIssue}
    (h : Rising (index + 1) left issues) : Rising index (left + 1) issues := by
  constructor
  · exact h.sorted
  · intro issue hi
    have hw := h.within issue hi
    omega

theorem Rising.cons {index left : Nat} {issues : List BandIssue} {issue : BandIssue}
    (hb : issue.band = index) (h : Rising (index + 1) left issues) :
    Rising index (left + 1) (issue :: issues) := by
  constructor
  · rw [List.map_cons, List.pairwise_cons]
    refine ⟨?_,h.sorted⟩
    intro band hband
    obtain ⟨other,ho,rfl⟩ := List.mem_map.mp hband
    have hw := h.within other ho
    omega
  · intro other ho
    rcases List.mem_cons.mp ho with rfl | ho
    · omega
    · have hw := h.within other ho
      omega

/-- What every walk over the bands from an index on comes to. -/
structure Walked (area index left : Nat) (r : Run (List BandIssue)) : Prop where
  ends : r.Underran ∨ ∃ issues, r.result = .ok issues ∧ Rising index left issues
  size : ∀ i : Image, i.HasSize area → (r.trace.paintOn i).HasSize area
  frame : ∀ (i : Image) (channel : Channel),
    channel.position < index ∨ index + left ≤ channel.position →
      (r.trace.paintOn i).plane channel = i.plane channel
  leftOut : ∀ issues, r.result = .ok issues → ∀ issue ∈ issues, ∀ channel : Channel,
    channel.position = issue.band → ∀ i : Image,
      (r.trace.paintOn i).plane channel = i.plane channel

namespace Walked
variable {left : Nat}

theorem nil (c : Cursor) : Walked area index 0 ⟨.ok [], c, []⟩ where
  ends := .inr ⟨[],rfl,.nil index 0⟩
  size := fun _ h => h
  frame := fun _ _ _ => rfl
  leftOut := by
    intro issues h issue hi
    cases h
    exact absurd hi List.not_mem_nil

/-- A lack of bytes before anything is painted. -/
theorem stopped {r : Run (List BandIssue)} (hr : r.Underran)
    (hpaint : ∀ i : Image, r.trace.paintOn i = i) : Walked area index left r where
  ends := .inl hr
  size := fun i h => by rwa [hpaint]
  frame := fun i _ _ => by rw [hpaint]
  leftOut := by
    intro issues h
    obtain ⟨_,-,he⟩ := hr
    rw [he] at h
    cases h

theorem filled {after : Run (List BandIssue)} (ih : Walked area (index + 1) left after)
    {t : Trace} {channel : Channel} {samples : List UInt8} (hchannel : channel.position = index)
    (hlen : samples.length = area)
    (hpaint : ∀ i : Image, t.paintOn i = i.paint channel samples) :
    Walked area index (left + 1) (resume [] t after) where
  ends := by
    rcases ih.ends with ⟨needed,hlt,herr⟩ | ⟨issues,hok,hrise⟩
    · exact .inl ⟨needed,hlt,by simp only [resume, herr, Except.map]⟩
    · exact .inr ⟨issues,by simp only [resume, hok, Except.map, List.nil_append],hrise.later⟩
  size := by
    intro i hi
    rw [resume, Trace.paintOn_append, hpaint]
    exact ih.size _ (hi.paint channel hlen)
  frame := by
    intro i other hother
    have hne : other ≠ channel := by
      rintro rfl
      omega
    rw [resume, Trace.paintOn_append, hpaint, ih.frame _ _ (by omega),
      Image.plane_paint_of_ne i hne]
  leftOut := by
    intro issues hok issue hissue other hother i
    rw [resume_nil_result] at hok
    have hw : index + 1 ≤ issue.band := by
      rcases ih.ends with ⟨_,-,herr⟩ | ⟨issues',hok',hrise⟩
      · rw [herr] at hok
        cases hok
      · rw [hok'] at hok
        cases hok
        exact (hrise.within issue hissue).1
    have hne : other ≠ channel := by
      rintro rfl
      omega
    rw [resume, Trace.paintOn_append, hpaint, ih.leftOut issues hok issue hissue other hother,
      Image.plane_paint_of_ne i hne]

theorem passed {after : Run (List BandIssue)} (ih : Walked area (index + 1) left after)
    {t : Trace} {issue : BandIssue} (hband : issue.band = index)
    (hpaint : ∀ i : Image, t.paintOn i = i) :
    Walked area index (left + 1) (resume [issue] t after) where
  ends := by
    rcases ih.ends with ⟨needed,hlt,herr⟩ | ⟨issues,hok,hrise⟩
    · exact .inl ⟨needed,hlt,by simp only [resume, herr, Except.map]⟩
    · exact .inr ⟨issue :: issues,by simp only [resume, hok, Except.map, List.singleton_append],
        hrise.cons hband⟩
  size := by
    intro i hi
    rw [resume, Trace.paintOn_append, hpaint]
    exact ih.size i hi
  frame := by
    intro i other hother
    rw [resume, Trace.paintOn_append, hpaint]
    exact ih.frame i other (by omega)
  leftOut := by
    intro issues hok other hother channel hchannel i
    rw [resume, Trace.paintOn_append, hpaint]
    rcases ih.ends with ⟨_,-,herr⟩ | ⟨issues',hok',-⟩
    · simp only [resume, herr, Except.map] at hok
      cases hok
    · simp only [resume, hok', Except.map, List.singleton_append] at hok
      cases hok
      rcases List.mem_cons.mp hother with rfl | hother
      · exact ih.frame i channel (by omega)
      · exact ih.leftOut issues' hok' other hother channel hchannel i

theorem last {issue : BandIssue} (hband : issue.band = index) {t : Trace} (c : Cursor)
    (hpaint : ∀ i : Image, t.paintOn i = i) :
    Walked area index (left + 1) ⟨.ok [issue], c, t⟩ where
  ends := .inr ⟨[issue],rfl,.cons hband (.nil (index + 1) left)⟩
  size := fun i h => by rwa [hpaint]
  frame := fun i _ _ => by rw [hpaint]
  leftOut := fun _ _ _ _ _ _ i => by rw [hpaint]

end Walked

/-- Every walk over bands that have channels keeps to the channels of the bands it decodes. -/
theorem walked (harea : h.HasArea area) (hsmall : area < 2 ^ (60 : Nat)) (left : Nat) (c : Cursor)
    (index : Nat) (hindex : index + left ≤ 4) (first : Option UInt8) :
    Walked area index left ((bandsFrom h passing first index left).run c) := by
  induction left generalizing c index first with
  | zero => exact .nil c
  | succ left ih =>
      obtain ⟨channel,hchannel⟩ := channel_of_lt (by omega : index < 4)
      have hposition := Channel.ofBand?_eq_some.mp hchannel
      have hv : Outcome h passing first index area channel c
          ((visit h passing first index).run c) := visit_outcome harea hsmall hchannel
      generalize hr : (visit h passing first index).run c = r at hv
      cases hv with
      | @filled kind nodata rest hrest hissue hlen =>
          rw [run_bandsFrom_filled hr]
          refine (ih _ (index + 1) (by omega) _).filled hposition (List.length_take_of_le hlen) ?_
          intro i
          simp only [Trace.paintOn_append, paintOn_opening, paintOn_differing, paintOn_filling]
      | staying hrest hissue hmode =>
          rw [run_bandsFrom_leftOut hr]
          exact (ih _ (index + 1) (by omega) _).passed (issue?_band hissue) fun i => rfl
      | passed hrest hissue hmode htail hlen =>
          rw [run_bandsFrom_leftOut hr]
          exact (ih _ (index + 1) (by omega) _).passed (issue?_band hissue) fun i => rfl
      | last hrest hissue hmode htail =>
          rw [run_bandsFrom_last hr]
          exact .last (issue?_band hissue) _ fun i => rfl
      | empty hrest =>
          rw [bandsFrom_succ, Reading.run_bind_of_error (by rw [hr]), hr]
          exact .stopped (Run.underran_behind hrest Nat.zero_lt_one) fun i => rfl
      | single hrest =>
          rw [bandsFrom_succ, Reading.run_bind_of_error (by rw [hr]), hr]
          exact .stopped (Run.underran_behind (rest_behind_one hrest) Nat.zero_lt_one) fun i => rfl
      | fillShort hrest hissue hlen =>
          rw [bandsFrom_succ, Reading.run_bind_of_error (by rw [hr]), hr]
          refine .stopped (Run.underran_behind (rest_behind hrest) hlen) ?_
          intro i
          simp only [Trace.paintOn_append, paintOn_opening, paintOn_differing]
      | passShort hrest hissue hmode htail hlen =>
          rw [bandsFrom_succ, Reading.run_bind_of_error (by rw [hr]), hr]
          exact .stopped (Run.underran_behind (rest_behind hrest) hlen) fun i => rfl

/-- A walk that does not pass over records takes no more than a byte for each pixel
and two for each band. However it misreads the bands, that many bytes are enough. -/
theorem bandsFrom_ok_of_le (harea : h.HasArea area) (hsmall : area < 2 ^ (60 : Nat)) (left : Nat)
    (c : Cursor) (index : Nat) (hindex : index + left ≤ 4) (first : Option UInt8)
    (hlen : left * (2 + area) ≤ c.remaining) :
    ∃ issues, ((bandsFrom h false first index left).run c).result = .ok issues := by
  induction left generalizing c index first with
  | zero => exact ⟨[],rfl⟩
  | succ left ih =>
      obtain ⟨channel,hchannel⟩ := channel_of_lt (by omega : index < 4)
      rw [Nat.succ_mul] at hlen
      have hv : Outcome h false first index area channel c
          ((visit h false first index).run c) := visit_outcome harea hsmall hchannel
      generalize hr : (visit h false first index).run c = r at hv
      cases hv with
      | @filled kind nodata rest hrest hissue _ =>
          obtain ⟨issues,hok⟩ := ih (c.advance (2 + area)) (index + 1) (by omega)
            (some (first.getD nodata)) (by rw [Cursor.remaining_advance]; omega)
          rw [run_bandsFrom_filled hr]
          exact ⟨issues,(resume_nil_result _ _).trans hok⟩
      | @staying kind nodata rest issue hrest hissue _ =>
          obtain ⟨issues,hok⟩ := ih (c.advance 2) (index + 1) (by omega)
            (some (first.getD nodata)) (by rw [Cursor.remaining_advance]; omega)
          rw [run_bandsFrom_leftOut hr]
          exact ⟨issue :: issues,by rw [resume, hok]; rfl⟩
      | passed _ _ hmode => cases hmode
      | last _ _ hmode => cases hmode
      | empty hrest =>
          rw [Cursor.remaining, hrest, List.length_nil] at hlen
          omega
      | single hrest =>
          rw [Cursor.remaining, hrest, List.length_singleton] at hlen
          omega
      | fillShort hrest _ hshort =>
          rw [Cursor.remaining, hrest, List.length_cons, List.length_cons] at hlen
          omega
      | passShort _ _ hmode => cases hmode

end BandStream

end RasterWkb
