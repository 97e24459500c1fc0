import RasterWkb.Proofs.BandWalk
import RasterWkb.Proofs.GrayBand
import RasterWkb.Proofs.Stepwise

/-!
# What is reported about bands

Each visit of a band reports its type byte first. If the band is left out, a warning
says why; otherwise there may be a remark on its nodata value. A walk that cannot go on
behind a band says so in the end. The reports thus come in groups, one for each band
that was visited, and the issues are gathered in the same order.

The relation between type bytes, issues and groups of reports is stated on its own.
What it implies for the warnings is shown by induction over it, and walks are shown to
keep to it by induction over their bands.
-/
namespace RasterWkb

/-- The event is a warning that concerns no issue: a remark on a nodata value, or that the
walk has ended. -/
def Event.isAside : Event → Bool
  | nodataIgnored _ | nodataDiffers .. | walkEnded _ => true
  | _ => false

/-- The event remarks on a nodata value. -/
def Event.isNodata : Event → Bool
  | nodataIgnored _ | nodataDiffers .. => true
  | _ => false

theorem Event.level_of_isNodata {e : Event} (h : e.isNodata = true) : e.level = .warning := by
  cases e <;> first | rfl | cases h

theorem Event.isAside_of_isNodata {e : Event} (h : e.isNodata = true) : e.isAside = true := by
  cases e <;> first | rfl | cases h

theorem Event.ne_walkEnded_of_isNodata {e : Event} (h : e.isNodata = true) (band : Nat) :
    e ≠ .walkEnded band := by
  rintro rfl
  cases h

/-- The warnings that are no asides. -/
def issueWarnings (events : List Event) : List Event :=
  events.filter fun e => e.level == .warning && !e.isAside

@[simp] theorem issueWarnings_append (xs ys : List Event) :
    issueWarnings (xs ++ ys) = issueWarnings xs ++ issueWarnings ys :=
  List.filter_append xs ys

theorem issueWarnings_asides {events : List Event} (h : ∀ e ∈ events, e.isAside = true) :
    issueWarnings events = [] := by
  rw [issueWarnings, List.filter_eq_nil_iff]
  intro e he
  rw [h e he, Bool.not_true, Bool.and_false]
  exact Bool.false_ne_true

theorem issueWarnings_nodata {events : List Event} (h : ∀ e ∈ events, e.isNodata = true) :
    issueWarnings events = [] :=
  issueWarnings_asides fun e he => Event.isAside_of_isNodata (h e he)

/-- Nothing tells where the record of the band ends: it is offline, or its type has no samples
or is not defined. -/
def Descriptor.Unlocatable (d : Descriptor) : Prop :=
  d.isOffline = true ∨ d.pixelType? = none ∨ d.pixelType? = some .terminator

instance (d : Descriptor) : Decidable d.Unlocatable :=
  inferInstanceAs (Decidable (_ ∨ _ ∨ _))

theorem Descriptor.tail?_eq_none_iff (d : Descriptor) (area : Int) :
    d.tail? area = none ↔ d.Unlocatable := by
  unfold tail? Unlocatable
  cases d.isOffline with
  | true => simp
  | false =>
      cases d.pixelType? with
      | none => simp
      | some t => cases t <;> simp [PixelType.byteSize]

/-- The bands that a trace visits, each with the place of its type byte. -/
def Trace.visits (t : Trace) : List (Nat × Nat) :=
  t.filterMap fun
    | .took (.bandType band) offset _ => some (band, offset)
    | _ => none

@[simp] theorem Trace.visits_append (s t : Trace) : visits (s ++ t) = visits s ++ visits t :=
  List.filterMap_append

/-- The trace visits the bands from an index on, and these are their type bytes. -/
structure Trace.Visits (data : List UInt8) (index : Nat) (kinds : List UInt8) (t : Trace) :
    Prop where
  bands : t.visits.map Prod.fst = List.range' index kinds.length
  bytes : t.visits.map (fun visit => data[visit.2]?) = kinds.map some

/-- The trace holds nothing but remarks on nodata values. -/
structure Trace.Remarks (t : Trace) : Prop where
  visits : t.visits = []
  events : ∀ e ∈ t.events, e.isNodata = true

theorem Trace.Remarks.of_reportIf (b : Bool) {event : Event} (h : event.isNodata = true) :
    Remarks (if b then [.reported event] else []) := by
  cases b with
  | false => exact ⟨rfl,fun _ he => absurd he List.not_mem_nil⟩
  | true =>
      refine ⟨rfl,fun e he => ?_⟩
      rw [List.mem_singleton.mp he]
      exact h

theorem Trace.Visits.nil (data : List UInt8) (index : Nat) : Visits data index [] [] :=
  ⟨rfl,rfl⟩

/-- A visit in front of others. -/
theorem Trace.Visits.cons {data : List UInt8} {index place : Nat} {kind : UInt8}
    {kinds : List UInt8} {t u : Trace} (ht : t.visits = [(index, place)])
    (hplace : data[place]? = some kind) (h : Visits data (index + 1) kinds u) :
    Visits data index (kind :: kinds) (t ++ u) where
  bands := by
    rw [visits_append, ht, List.map_append, h.bands, List.length_cons, List.range'_succ]
    rfl
  bytes := by
    rw [visits_append, ht, List.map_append, h.bytes, List.map_singleton, hplace]
    rfl

theorem Trace.Visits.single {data : List UInt8} {index place : Nat} {kind : UInt8} {t : Trace}
    (ht : t.visits = [(index, place)]) (hplace : data[place]? = some kind) :
    Visits data index [kind] t := by
  have h := Visits.cons ht hplace (.nil data (index + 1))
  rwa [List.append_nil] at h

namespace BandStream

theorem not_unlocatable_of_supported {index : Nat} {band : Descriptor}
    (h : issue? index band = none) : ¬band.Unlocatable := by
  unfold issue? at h
  split at h
  · cases h
  · next hon =>
      split at h
      · next hsupported =>
          rintro (hoffline | hnone | hend)
          · exact hon hoffline
          · simp [Descriptor.isSupported, hnone] at hsupported
          · simp [Descriptor.isSupported, hend, PixelType.isSupported] at hsupported
      · cases h

/-- The type bytes of the bands from an index on, the issues about them and the groups of what
is reported. At most so many bands are visited, and all of them unless the walk ends at bands
that cannot be passed over. -/
inductive Reports (ends : Bool) :
    Nat → Nat → List UInt8 → List BandIssue → List (List Event) → Prop
  | none (index : Nat) : Reports ends index 0 [] [] []
  | decoded {index left : Nat} {kind : UInt8} {remarks : List Event} {kinds : List UInt8}
      {issues : List BandIssue} {groups : List (List Event)}
      (hissue : issue? index (.ofByte kind) = .none) (hremarks : ∀ e ∈ remarks, e.isNodata = true)
      (later : Reports ends (index + 1) left kinds issues groups) :
      Reports ends index (left + 1) (kind :: kinds) issues
        ((.band index (.ofByte kind) :: remarks) :: groups)
  | leftOut {index left : Nat} {kind : UInt8} {issue : BandIssue} {kinds : List UInt8}
      {issues : List BandIssue} {groups : List (List Event)}
      (hissue : issue? index (.ofByte kind) = some issue)
      (hgoes : ends = true → ¬(Descriptor.ofByte kind).Unlocatable)
      (later : Reports ends (index + 1) left kinds issues groups) :
      Reports ends index (left + 1) (kind :: kinds) (issue :: issues)
        ([.band index (.ofByte kind), .bandLeftOut issue] :: groups)
  | stopped {index left : Nat} {kind : UInt8} {issue : BandIssue}
      (hissue : issue? index (.ofByte kind) = some issue) (hends : ends = true)
      (hlast : (Descriptor.ofByte kind).Unlocatable) :
      Reports ends index (left + 1) [kind] [issue]
        [[.band index (.ofByte kind), .bandLeftOut issue, .walkEnded index]]

/-- What is reported about one band: its type byte, then nothing but warnings, and among these
why it was left out, if it was. -/
structure Group (band : Nat) (kind : UInt8) (skipped : List BandIssue) (group : List Event) :
    Prop where
  opens : group.head? = some (.band band (.ofByte kind))
  warnings : ∀ e ∈ group.tail, e.level = .warning
  issues : issueWarnings group.tail =
    (skipped.filter fun issue => issue.band == band).map .bandLeftOut

namespace Group
variable {band : Nat} {kind : UInt8} {issue : BandIssue} {skipped : List BandIssue}
variable {remarks group : List Event}

/-- A band that was not left out has remarks on its nodata value at most. -/
theorem of_remarks (hremarks : ∀ e ∈ remarks, e.isNodata = true)
    (hnone : (skipped.filter fun issue => issue.band == band) = []) :
    Group band kind skipped (.band band (.ofByte kind) :: remarks) where
  opens := rfl
  warnings := fun e he => Event.level_of_isNodata (hremarks e he)
  issues := by
    rw [hnone]
    exact issueWarnings_nodata hremarks

/-- A band that was left out has a warning of its own, and asides behind it. -/
theorem of_issue (hband : issue.band = band) {asides : List Event}
    (hasides : ∀ e ∈ asides, e.level = .warning ∧ e.isAside = true)
    (hnone : (skipped.filter fun issue => issue.band == band) = []) :
    Group band kind (issue :: skipped)
      (.band band (.ofByte kind) :: .bandLeftOut issue :: asides) where
  opens := rfl
  warnings := by
    intro e he
    rcases List.mem_cons.mp he with rfl | he
    · rfl
    · exact (hasides e he).1
  issues := by
    have hown : ((issue :: skipped).filter fun issue => issue.band == band) = [issue] := by
      rw [List.filter_cons_of_pos (by rw [hband, beq_self_eq_true]), hnone]
    have hnothing : issueWarnings asides = [] := issueWarnings_asides fun e he => (hasides e he).2
    rw [hown, List.tail_cons, issueWarnings, List.filter_cons_of_pos rfl, ← issueWarnings,
      hnothing]
    rfl

/-- An issue about another band changes nothing. -/
theorem cons_other (h : Group band kind skipped group) (hne : issue.band ≠ band) :
    Group band kind (issue :: skipped) group where
  opens := h.opens
  warnings := h.warnings
  issues := by
    rw [List.filter_cons_of_neg (by rwa [beq_iff_eq])]
    exact h.issues

end Group

/-- How the reports about bands end. Either as many bands were visited as there should be and
the walk never ended early, or a last warning says behind which band it did. -/
inductive Ending (ends : Bool) (index count : Nat) (kinds : List UInt8) (events : List Event) :
    Prop
  | whole (hcount : kinds.length = count)
      (hgoes : ends = true → ∀ kind ∈ kinds, ¬(Descriptor.ofByte kind).Unlocatable)
      (hnever : ∀ band, .walkEnded band ∉ events)
  | stopped (earlier : List UInt8) (kind : UInt8) (front : List Event) (hends : ends = true)
      (hkinds : kinds = earlier ++ [kind])
      (hearlier : ∀ kind ∈ earlier, ¬(Descriptor.ofByte kind).Unlocatable)
      (hlast : (Descriptor.ofByte kind).Unlocatable) (hcount : kinds.length ≤ count)
      (hevents : events = front ++ [.walkEnded (index + earlier.length)])
      (honce : ∀ band, .walkEnded band ∉ front)

namespace Ending
variable {ends : Bool} {index count : Nat} {kinds : List UInt8} {events : List Event}

/-- Reports in front that tell of no walk. -/
theorem behind (h : Ending ends index count kinds events) {before : List Event}
    (hbefore : ∀ band, .walkEnded band ∉ before) :
    Ending ends index count kinds (before ++ events) := by
  cases h with
  | whole hcount hgoes hnever =>
      refine .whole hcount hgoes fun band => ?_
      rw [List.mem_append, not_or]
      exact ⟨hbefore band,hnever band⟩
  | stopped earlier kind front hends hkinds hearlier hlast hcount hevents honce =>
      refine .stopped earlier kind (before ++ front) hends hkinds hearlier hlast hcount ?_
        fun band => ?_
      · rw [hevents, List.append_assoc]
      · rw [List.mem_append, not_or]
        exact ⟨hbefore band,honce band⟩

/-- A band in front at which the walk did not end. -/
theorem cons {kind : UInt8} (hgo : ends = true → ¬(Descriptor.ofByte kind).Unlocatable)
    (h : Ending ends (index + 1) count kinds events) :
    Ending ends index (count + 1) (kind :: kinds) events := by
  cases h with
  | whole hcount hgoes hnever =>
      refine .whole (by rw [List.length_cons, hcount]) (fun hends other hother => ?_) hnever
      rcases List.mem_cons.mp hother with rfl | hother
      · exact hgo hends
      · exact hgoes hends other hother
  | stopped earlier last front hends hkinds hearlier hlast hcount hevents honce =>
      refine .stopped (kind :: earlier) last front hends ?_ ?_ hlast ?_ ?_ honce
      · rw [hkinds, List.cons_append]
      · intro other hother
        rcases List.mem_cons.mp hother with rfl | hother
        · exact hgo hends
        · exact hearlier other hother
      · rw [List.length_cons]
        omega
      · rw [hevents, List.length_cons]
        congr 3
        omega

end Ending

namespace Reports
variable {ends : Bool} {index left : Nat} {kinds : List UInt8} {issues : List BandIssue}
variable {groups : List (List Event)}

theorem length_groups (h : Reports ends index left kinds issues groups) :
    groups.length = kinds.length := by
  induction h with
  | none => rfl
  | decoded _ _ _ ih | leftOut _ _ _ ih => rw [List.length_cons, List.length_cons, ih]
  | stopped => rfl

theorem le_band (h : Reports ends index left kinds issues groups) :
    ∀ issue ∈ issues, index ≤ issue.band := by
  induction h with
  | none => exact fun _ h => absurd h List.not_mem_nil
  | decoded _ _ _ ih => exact fun issue h => Nat.le_of_succ_le (ih issue h)
  | leftOut hissue _ _ ih =>
      intro issue h
      rcases List.mem_cons.mp h with rfl | h
      · exact Nat.le_of_eq (issue?_band hissue).symm
      · exact Nat.le_of_succ_le (ih issue h)
  | stopped hissue =>
      intro issue h
      rw [List.mem_singleton.mp h]
      exact Nat.le_of_eq (issue?_band hissue).symm

/-- The warnings, but for asides, are the issues in their order. -/
theorem issueWarnings_flatten (h : Reports ends index left kinds issues groups) :
    issueWarnings groups.flatten = issues.map .bandLeftOut := by
  induction h with
  | none => rfl
  | @decoded _ _ _ remarks _ _ _ _ hremarks _ ih =>
      have hasides : issueWarnings remarks = [] := issueWarnings_nodata hremarks
      rw [List.flatten_cons, List.cons_append, issueWarnings,
        List.filter_cons_of_neg Bool.false_ne_true, ← issueWarnings, issueWarnings_append, hasides,
        List.nil_append, ih]
  | leftOut _ _ _ ih =>
      rw [List.flatten_cons, issueWarnings_append, ih]
      rfl
  | stopped => rfl

/-- No issue is about a band in front. -/
theorem filter_eq_nil (h : Reports ends index left kinds issues groups) {band : Nat}
    (hband : band < index) : (issues.filter fun issue => issue.band == band) = [] := by
  rw [List.filter_eq_nil_iff]
  intro issue hissue
  have hle := h.le_band issue hissue
  rw [beq_iff_eq]
  omega

theorem group_at (h : Reports ends index left kinds issues groups) {k : Nat}
    {group : List Event} (hgroup : groups[k]? = some group) :
    ∃ kind, kinds[k]? = some kind ∧ Group (index + k) kind issues group := by
  induction h generalizing k with
  | none => cases hgroup
  | @decoded index _ kind remarks _ _ _ _ hremarks later ih =>
      cases k with
      | zero =>
          obtain rfl := Option.some.inj hgroup
          exact ⟨kind,rfl,.of_remarks hremarks (later.filter_eq_nil (Nat.lt_succ_self index))⟩
      | succ k =>
          obtain ⟨kind,hkind,hg⟩ := ih hgroup
          rw [Nat.add_assoc, Nat.add_comm 1] at hg
          exact ⟨kind,hkind,hg⟩
  | @leftOut index _ kind issue _ _ _ hissue _ later ih =>
      have hband := issue?_band hissue
      cases k with
      | zero =>
          obtain rfl := Option.some.inj hgroup
          exact ⟨kind,rfl,.of_issue hband (fun _ he => absurd he List.not_mem_nil)
            (later.filter_eq_nil (Nat.lt_succ_self index))⟩
      | succ k =>
          obtain ⟨kind,hkind,hg⟩ := ih hgroup
          rw [Nat.add_assoc, Nat.add_comm 1] at hg
          exact ⟨kind,hkind,hg.cons_other (by omega)⟩
  | @stopped index _ kind issue hissue _ _ =>
      cases k with
      | zero =>
          obtain rfl := Option.some.inj hgroup
          refine ⟨kind,rfl,.of_issue (issue?_band hissue) (fun e he => ?_) rfl⟩
          rw [List.mem_singleton.mp he]
          exact ⟨rfl,rfl⟩
      | succ k => cases hgroup

theorem ending (h : Reports ends index left kinds issues groups) :
    Ending ends index left kinds groups.flatten := by
  induction h with
  | none => exact .whole rfl (fun _ _ h => absurd h List.not_mem_nil) fun _ => List.not_mem_nil
  | decoded hissue hremarks _ ih =>
      rw [List.flatten_cons]
      refine (ih.cons fun _ => not_unlocatable_of_supported hissue).behind fun band h => ?_
      rcases List.mem_cons.mp h with h | h
      · cases h
      · exact Event.ne_walkEnded_of_isNodata (hremarks _ h) band rfl
  | leftOut hissue hgoes _ ih =>
      rw [List.flatten_cons]
      refine (ih.cons hgoes).behind fun band h => ?_
      simp at h
  | @stopped index left kind issue hissue hends hlast =>
      refine .stopped [] kind [.band index (.ofByte kind), .bandLeftOut issue] hends rfl
        (fun _ h => absurd h List.not_mem_nil) hlast (Nat.succ_le_succ (Nat.zero_le left)) rfl
        fun band h => ?_
      simp at h

end Reports

/-! ### Walks -/

/-- What reading bands leaves in its trace: the reports about the bands that were visited, or
a run that broke off and does not say that the walk has ended. -/
inductive Reported (data : List UInt8) (ends : Bool) (index left : Nat) :
    Run (List BandIssue) → Prop
  | returned {kinds : List UInt8} {issues : List BandIssue} {groups : List (List Event)}
      {c : Cursor} {t : Trace} (hreports : Reports ends index left kinds issues groups)
      (hevents : t.events = groups.flatten) (hvisits : t.Visits data index kinds) :
      Reported data ends index left ⟨.ok issues, c, t⟩
  | broken {r : Run (List BandIssue)} (hunder : r.Underran)
      (hnever : ∀ band, .walkEnded band ∉ r.trace.events) : Reported data ends index left r

section Walks
variable {data : List UInt8} {ends : Bool} {index left area : Nat} {h : Header} {passing : Bool}
variable {c : Cursor} {first : Option UInt8} {kind nodata : UInt8} {rest : List UInt8}

/-- A walk that goes on behind the visit of a band. -/
theorem Reported.resume {issues : List BandIssue} {group : List Event} {t : Trace}
    {after : Run (List BandIssue)} (hafter : Reported data ends (index + 1) left after)
    (place : Nat) (hvisit : t.visits = [(index, place)]) (hplace : data[place]? = some kind)
    (hevents : t.events = group) (hnever : ∀ band, .walkEnded band ∉ group)
    (hstep : ∀ {kinds later groups}, Reports ends (index + 1) left kinds later groups →
      Reports ends index (left + 1) (kind :: kinds) (issues ++ later) (group :: groups)) :
    Reported data ends index (left + 1) (resume issues t after) := by
  cases hafter with
  | returned hreports hlater hvisits =>
      refine .returned (hstep hreports) ?_ (hvisits.cons hvisit hplace)
      rw [Trace.events_append, hevents, hlater, List.flatten_cons]
  | @broken r hunder hlater =>
      obtain ⟨needed,hlt,herr⟩ := hunder
      refine .broken ⟨needed,hlt,by simp only [BandStream.resume, herr, Except.map]⟩ fun band => ?_
      rw [BandStream.resume, Trace.events_append, hevents, List.mem_append, not_or]
      exact ⟨hnever band,hlater band⟩

theorem remarks_differing : (differing index nodata first).Remarks := by
  cases first with
  | none => exact ⟨rfl,fun _ he => absurd he List.not_mem_nil⟩
  | some f => exact .of_reportIf _ rfl

theorem remarks_ignored : (ignored kind nodata).Remarks :=
  .of_reportIf _ rfl

theorem never_of_nodata {remarks : List Event} (hremarks : ∀ e ∈ remarks, e.isNodata = true)
    (band : Nat) : .walkEnded band ∉ .band index (.ofByte kind) :: remarks := by
  intro hmem
  rcases List.mem_cons.mp hmem with hmem | hmem
  · cases hmem
  · exact Event.ne_walkEnded_of_isNodata (hremarks _ hmem) band rfl

theorem never_of_leftOut {issue : BandIssue} (band : Nat) :
    Event.walkEnded band ∉ [.band index (.ofByte kind), .bandLeftOut issue] := by
  intro hmem
  simp at hmem

/-- Every walk reports what it does, in either mode; only one that passes over records can
end early. -/
theorem bandsFrom_reported (harea : h.HasArea area) (hsmall : area < 2 ^ (60 : Nat)) (left : Nat)
    (c : Cursor) (hc : c.Within data) (index : Nat) (hindex : index + left ≤ 4)
    (first : Option UInt8) :
    Reported data passing index left ((bandsFrom h passing first index left).run c) := by
  -- Where the next record starts depends on the visit of this one; all that is kept of the
  -- cursor is that it stands in the stream, which places the type bytes.
  induction left generalizing c index first with
  | zero => exact .returned (.none index) rfl (.nil data index)
  | succ left ih =>
      obtain ⟨channel,hchannel⟩ := channel_of_lt (by omega : index < 4)
      have hv : Outcome h passing first index area channel c
          ((visit h passing first index).run c) := visit_outcome harea hsmall hchannel
      have hbehind : ∀ {kind nodata : UInt8} {rest : List UInt8} {n : Nat},
          c.rest = kind :: nodata :: rest → n ≤ rest.length → (c.advance (2 + n)).Within data := by
        intro kind nodata rest n hrest hlen
        refine hc.advance ?_
        rw [Cursor.remaining, hrest, List.length_cons, List.length_cons]
        omega
      generalize hr : (visit h passing first index).run c = r at hv
      cases hv with
      | @filled kind nodata rest hrest hissue hlen =>
          have hlater := ih _ (hbehind hrest hlen) (index + 1) (by omega)
            (some (first.getD nodata))
          have hremarks : (differing index nodata first).Remarks := remarks_differing
          rw [run_bandsFrom_filled hr]
          refine hlater.resume c.offset ?_ (hc.getElem? hrest) ?_
            (never_of_nodata hremarks.events) fun hreports =>
              .decoded hissue hremarks.events hreports
          · rw [Trace.visits_append, Trace.visits_append, hremarks.visits]
            rfl
          · rw [Trace.events_append, Trace.events_append]
            exact congrArg (_ :: ·) (List.append_nil _)
      | staying hrest hissue hmode =>
          have hlater := ih _ (hbehind hrest (Nat.zero_le _)) (index + 1) (by omega)
          rw [run_bandsFrom_leftOut hr]
          refine (hlater _).resume c.offset rfl (hc.getElem? hrest) rfl
            never_of_leftOut fun hreports => .leftOut hissue ?_ hreports
          rw [hmode]
          exact fun hends => absurd hends Bool.false_ne_true
      | passed hrest hissue hmode htail hlen =>
          have hlater := ih _ (hbehind hrest hlen) (index + 1) (by omega)
          rw [run_bandsFrom_leftOut hr]
          refine (hlater _).resume c.offset rfl (hc.getElem? hrest) rfl
            never_of_leftOut fun hreports => .leftOut hissue ?_ hreports
          rw [← Descriptor.tail?_eq_none_iff _ area, htail]
          exact fun _ hnone => Option.some_ne_none _ hnone
      | last hrest hissue hmode htail =>
          rw [run_bandsFrom_last hr]
          exact .returned (.stopped hissue hmode ((Descriptor.tail?_eq_none_iff _ area).mp htail))
            rfl (.single rfl (hc.getElem? hrest))
      | empty hrest =>
          rw [bandsFrom_succ, Reading.run_bind_of_error (by rw [hr]), hr]
          exact .broken (Run.underran_behind hrest Nat.zero_lt_one) fun _ => List.not_mem_nil
      | single hrest =>
          rw [bandsFrom_succ, Reading.run_bind_of_error (by rw [hr]), hr]
          exact .broken (Run.underran_behind (rest_behind_one hrest) Nat.zero_lt_one)
            (never_of_nodata fun _ hmem => absurd hmem List.not_mem_nil)
      | fillShort hrest hissue hlen =>
          rw [bandsFrom_succ, Reading.run_bind_of_error (by rw [hr]), hr]
          refine .broken (Run.underran_behind (rest_behind hrest) hlen) fun band => ?_
          rw [Trace.events_append]
          exact never_of_nodata remarks_differing.events band
      | passShort hrest hissue hmode htail hlen =>
          rw [bandsFrom_succ, Reading.run_bind_of_error (by rw [hr]), hr]
          exact .broken (Run.underran_behind (rest_behind hrest) hlen) never_of_leftOut

/-- The only band of a gray raster is reported likewise, and its visit is never said to be the
end of a walk. -/
theorem grayscale_reported (harea : h.HasArea area) (hsmall : area < 2 ^ (60 : Nat))
    (hc : c.Within data) : Reported data false 0 1 ((grayscale h passing).run c) := by
  have ho : GrayOutcome passing area c ((grayscale h passing).run c) :=
    grayscale_outcome harea hsmall
  have hgoes : ∀ kind, false = true → ¬(Descriptor.ofByte kind).Unlocatable :=
    fun _ hends => absurd hends Bool.false_ne_true
  generalize (grayscale h passing).run c = r at ho
  cases ho with
  | @filled kind nodata rest hrest hissue hlen =>
      have hremarks : (ignored kind nodata).Remarks := remarks_ignored
      refine .returned (.decoded hissue hremarks.events (.none 1)) ?_
        (.single ?_ (hc.getElem? hrest))
      · rw [Trace.events_append, Trace.events_append]
        rfl
      · rw [Trace.visits_append, Trace.visits_append, hremarks.visits]
        rfl
  | staying hrest hissue hmode =>
      exact .returned (.leftOut hissue (hgoes _) (.none 1)) rfl
        (.single rfl (hc.getElem? hrest))
  | passed hrest hissue hmode htail hlen =>
      exact .returned (.leftOut hissue (hgoes _) (.none 1)) rfl
        (.single rfl (hc.getElem? hrest))
  | empty hrest =>
      exact .broken (Run.underran_behind hrest Nat.zero_lt_one) fun _ => List.not_mem_nil
  | single hrest =>
      exact .broken (Run.underran_behind (rest_behind_one hrest) Nat.zero_lt_one)
        (never_of_nodata fun _ hmem => absurd hmem List.not_mem_nil)
  | fillShort hrest hissue hlen =>
      refine .broken (Run.underran_behind (rest_behind hrest) hlen) fun band => ?_
      rw [Trace.events_append]
      exact never_of_nodata remarks_ignored.events band
  | passShort hrest hissue hmode htail hlen =>
      exact .broken (Run.underran_behind (rest_behind hrest) hlen) never_of_leftOut

end Walks

end BandStream

end RasterWkb
