import RasterWkb.Proofs.StayingWalk
import RasterWkb.Proofs.Stepwise

/-!
# Walks that paint

A visit of a band leaves quiet marks, which paint nothing and pass over no samples, and
fills the channel of the band last of all if it does. A walk finishes some of its bands,
and what it did with them and with the others is shown by induction over its visits. No
bound on the size of the image is needed.
-/
namespace RasterWkb

/-! ### What a trace does to a channel -/

namespace Trace
variable {s t : Trace} {channel : Channel} {plane : List UInt8} {role : Role}

/-- The trace paints nothing on the channel. -/
def Keeps (t : Trace) (channel : Channel) : Prop :=
  ∀ i : Image, (t.paintOn i).plane channel = i.plane channel

/-- The trace leaves the samples on the channel. -/
def Shows (t : Trace) (channel : Channel) (plane : List UInt8) : Prop :=
  ∀ i : Image, (t.paintOn i).plane channel = plane

theorem Keeps.append (hs : s.Keeps channel) (ht : t.Keeps channel) : (s ++ t).Keeps channel :=
  fun i => by rw [paintOn_append, ht, hs]

theorem Shows.append (hs : s.Shows channel plane) (ht : t.Keeps channel) :
    (s ++ t).Shows channel plane :=
  fun i => by rw [paintOn_append, ht, hs]

theorem Shows.prepend (ht : t.Shows channel plane) : (s ++ t).Shows channel plane :=
  fun i => by rw [paintOn_append, ht]

theorem offsetOf?_append_of_none (hs : s.offsetOf? role = none) :
    (s ++ t).offsetOf? role = t.offsetOf? role := by
  rw [offsetOf?_append, hs, Option.none_or]

theorem offsetOf?_append_of_some {place : Nat} (hs : s.offsetOf? role = some place) :
    (s ++ t).offsetOf? role = some place := by
  rw [offsetOf?_append, hs, Option.some_or]

end Trace

/-! ### Quiet marks -/

/-- The mark belongs to the visit of a band, paints nothing and passes over no samples. -/
def Mark.Quiet (index : Nat) : Mark → Prop
  | took role _ _ => role.band? = some index ∧ role ≠ .samples index
  | reported _ => True
  | painted .. => False

def Trace.Quiet (index : Nat) (t : Trace) : Prop :=
  ∀ mark ∈ t, mark.Quiet index

namespace Trace.Quiet
variable {index : Nat} {s t : Trace}

theorem nil : Quiet index [] :=
  fun _ h => absurd h List.not_mem_nil

theorem append (hs : s.Quiet index) (ht : t.Quiet index) : (s ++ t).Quiet index :=
  List.forall_mem_append.mpr ⟨hs,ht⟩

theorem ite (b : Bool) (event : Event) : Quiet index (if b then [.reported event] else []) := by
  cases b with
  | false => exact nil
  | true => exact List.forall_mem_singleton.mpr trivial

theorem paintOn (h : t.Quiet index) (i : Image) : t.paintOn i = i := by
  induction t with
  | nil => rfl
  | cons mark t ih =>
      rw [Quiet, List.forall_mem_cons] at h
      cases mark with
      | painted => exact absurd h.1 id
      | _ => exact ih h.2

theorem keeps (h : t.Quiet index) (channel : Channel) : t.Keeps channel :=
  fun i => by rw [h.paintOn]

theorem offsetOf?_eq_none (h : t.Quiet index) {role : Role}
    (hrole : role.band? ≠ some index ∨ role = .samples index) : t.offsetOf? role = none := by
  rw [offsetOf?, List.findSome?_eq_none_iff]
  intro mark hmark
  have hquiet := h mark hmark
  cases mark with
  | took r offset size =>
      refine if_neg ?_
      rintro rfl
      exact hrole.elim (fun hband => hband hquiet.1) hquiet.2
  | _ => rfl

theorem concerns (h : t.Quiet index) : BandStream.Concerns index t := by
  intro role band hrole hband
  refine h.offsetOf?_eq_none (.inl ?_)
  rw [hrole]
  exact fun heq => hband (Option.some.inj heq)

theorem samples (h : t.Quiet index) (band : Nat) : t.offsetOf? (.samples band) = none := by
  by_cases hband : band = index
  · exact h.offsetOf?_eq_none (.inr (by rw [hband]))
  · exact h.concerns _ band rfl hband

end Trace.Quiet

namespace BandStream
open Reading

section Quiet
variable (index : Nat)

theorem leaves_descriptor : Reading.Leaves (Mark.Quiet index) (descriptor index) :=
  (Reading.Leaves.consume (fun _ _ => ⟨rfl,fun h => by cases h⟩) _).bind fun _ =>
    (Reading.Leaves.report trivial).bind fun _ =>
    (Reading.Leaves.consume (fun _ _ => ⟨rfl,fun h => by cases h⟩) _).bind fun _ => .pure _

theorem leaves_reportIf (b : Bool) (event : Event) :
    Reading.Leaves (Mark.Quiet index) (reportIf b event) := by
  unfold reportIf
  split
  · exact .report trivial
  · exact .pure ()

theorem leaves_passTail (band : Descriptor) (area : Int) :
    Reading.Leaves (Mark.Quiet index) (passTail index band area) := by
  unfold passTail
  split
  · exact .pure false
  · exact ((Reading.Leaves.consume (fun _ _ => ⟨rfl,fun h => by cases h⟩) _).bind
      fun _ => .pure _).bind fun _ => .pure true

theorem leaves_leaveOut (h : Header) (passing : Bool) (band : Descriptor) (issue : BandIssue) :
    Reading.Leaves (Mark.Quiet index) (leaveOut h passing index band issue) := by
  refine (Reading.Leaves.report trivial).bind fun _ => ?_
  split
  · exact (leaves_passTail index band h.area).bind fun _ => (leaves_reportIf index _ _).bind
      fun _ => .pure _
  · exact .pure true

theorem quiet_opening (offset : Nat) (kind : UInt8) : (opening index offset kind).Quiet index := by
  have htook : ∀ role : Role, role.band? = some index → role ≠ .samples index →
      ∀ offset size, Mark.Quiet index (.took role offset size) := fun _ hband hne _ _ => ⟨hband,hne⟩
  exact List.forall_mem_cons.mpr ⟨htook _ rfl (fun h => by cases h) _ _,
    List.forall_mem_cons.mpr ⟨trivial,
      List.forall_mem_singleton.mpr (htook _ rfl (fun h => by cases h) _ _)⟩⟩

theorem quiet_differing (nodata : UInt8) (first : Option UInt8) :
    (differing index nodata first).Quiet index := by
  cases first with
  | none => exact .nil
  | some first => exact .ite _ _

theorem quiet_ignored (kind nodata : UInt8) : (ignored kind nodata).Quiet 0 :=
  .ite _ _

end Quiet

/-! ### One band -/

section Visits
variable {data : List UInt8} {h : Header} {passing : Bool} {first : Option UInt8}
variable {index area left done start : Nat} {channel : Channel} {c : Cursor}

/-- A visit finds the two bytes in front of a record, or it breaks off. -/
theorem opened_or_broken (index : Nat) (c : Cursor) :
    (∃ kind nodata rest, c.rest = kind :: nodata :: rest) ∨
      ∃ (fault : Fault) (c' : Cursor) (t : Trace),
        (descriptor index).run c = ⟨.error fault, c', t⟩ ∧ c.offset ≤ c'.offset ∧
          t.Quiet index := by
  have hquiet := leaves_descriptor index c
  match hrest : c.rest with
  | kind :: nodata :: rest => exact .inl ⟨kind,nodata,rest,rfl⟩
  | [] =>
      have hnone : (descriptor index).run c = _ := run_descriptor_nil hrest
      rw [hnone] at hquiet
      exact .inr ⟨_,_,_,hnone,Nat.le_refl _,hquiet⟩
  | [kind] =>
      have hhalf : (descriptor index).run c = _ := run_descriptor_single hrest
      rw [hhalf] at hquiet
      exact .inr ⟨_,_,_,hhalf,Nat.le_add_right _ _,hquiet⟩

/-- What the visit of a band can come to, as far as the image is concerned. -/
inductive Visited (data : List UInt8) (index area : Nat) (channel : Channel) (c : Cursor) :
    Run (UInt8 × Visit) → Prop
  | filled {kind nodata : UInt8} {t : Trace} (hkind : data[c.offset]? = some kind)
      (hdecodes : decodes kind = true) (hfits : c.offset + 2 + area ≤ data.length)
      (ht : t.Quiet index) (hplace : t.offsetOf? (.bandType index) = some c.offset) :
      Visited data index area channel c
        ⟨.ok (nodata, .filled), c.advance (2 + area),
          t ++ filling index (c.offset + 2) channel ((data.drop (c.offset + 2)).take area)⟩
  | spared {kind nodata : UInt8} {issue : BandIssue} {verdict : Visit} {c' : Cursor} {t : Trace}
      (hkind : data[c.offset]? = some kind) (hdecodes : decodes kind = false)
      (hband : issue.band = index) (hverdict : verdict = .leftOut issue ∨ verdict = .last issue)
      (hc' : c'.Within data) (hle : c.offset ≤ c'.offset) (ht : t.Quiet index)
      (hplace : t.offsetOf? (.bandType index) = some c.offset) :
      Visited data index area channel c ⟨.ok (nodata, verdict), c', t⟩
  | broken {fault : Fault} {c' : Cursor} {t : Trace} (hle : c.offset ≤ c'.offset)
      (ht : t.Quiet index) : Visited data index area channel c ⟨.error fault, c', t⟩

/-- What is done behind the opening of a band that is left out. -/
theorem visited_spared {kind nodata : UInt8} {rest : List UInt8} {issue : BandIssue}
    (hc : c.Within data) (hrest : c.rest = kind :: nodata :: rest)
    (hissue : issue? index (.ofByte kind) = some issue) :
    Visited data index area channel c ((visit h passing first index).run c) := by
  have hbehind : (c.advance 2).Within data := hc.advance (by
    rw [Cursor.remaining, hrest, List.length_cons, List.length_cons]
    omega)
  have hleave := (stepwise_leaveOut h passing index (.ofByte kind) issue).covers (c.advance 2)
  have hquiet := leaves_leaveOut index h passing (.ofByte kind) issue (c.advance 2)
  have hle := Nat.le_trans (Nat.le_add_right c.offset 2) hleave.tiles.le
  have hwithin := hbehind.covers hleave
  rw [run_visit_of_issue hrest hissue]
  generalize hr : (leaveOut h passing index (.ofByte kind) issue).run (c.advance 2) = r at *
  obtain ⟨result,c',t⟩ := r
  have hmarks := (quiet_opening index c.offset kind).append hquiet
  cases result with
  | error fault =>
      rw [run_bind_of_error (by rw [hr]), hr]
      exact .broken hle hmarks
  | ok goesOn =>
      rw [run_bind_of_ok (by rw [hr]), hr]
      simp only [run_pure, List.append_nil]
      refine .spared (hc.getElem? hrest) (not_decodes_of_issue? hissue) (issue?_band hissue) ?_
        hwithin hle hmarks ?_
      · cases goesOn with
        | true => exact .inl rfl
        | false => exact .inr rfl
      · exact Trace.offsetOf?_append_of_some (offsetOf?_opening_kind index c.offset kind)

theorem visited (hc : c.Within data) (harea : h.HasArea area)
    (hchannel : Channel.ofBand? index = some channel) :
    Visited data index area channel c ((visit h passing first index).run c) := by
  rcases opened_or_broken index c with ⟨kind,nodata,rest,hrest⟩ | ⟨fault,c',t,hrun,hle,ht⟩
  · cases hissue : issue? index (.ofByte kind) with
    | some issue => exact visited_spared hc hrest hissue
    | none =>
        have hmarks := (quiet_opening index c.offset kind).append
          (quiet_differing index nodata first)
        rcases Nat.lt_or_ge rest.length area with hlen | hlen
        · rw [run_visit_lacking hrest harea hissue hlen]
          exact .broken (Nat.le_add_right _ _) hmarks
        · have hblock : rest = data.drop (c.offset + 2) := by
            rw [← List.drop_drop, ← hc.rest, hrest]
            rfl
          have htotal := hc.total
          rw [Cursor.remaining, hrest, List.length_cons, List.length_cons] at htotal
          rw [run_visit_filled hrest harea hissue hchannel hlen, ← List.append_assoc, hblock]
          exact .filled (hc.getElem? hrest) (decodes_of_issue? hissue) (by omega) hmarks
            (Trace.offsetOf?_append_of_some (offsetOf?_opening_kind index c.offset kind))
  · rw [visit, run_bind_of_error (by rw [hrun]), hrun]
    exact .broken hle ht

/-! ### Bands in turn -/

/-- What a walk did with the band of a channel that it finished. -/
inductive Finished (data : List UInt8) (area : Nat) (t : Trace) (channel : Channel) : Prop
  | filled {place : Nat} {kind : UInt8}
      (hplace : t.offsetOf? (.bandType channel.position) = some place)
      (hkind : data[place]? = some kind) (hdecodes : decodes kind = true)
      (hsamples : t.offsetOf? (.samples channel.position) = some (place + 2))
      (hfits : place + 2 + area ≤ data.length)
      (hshows : t.Shows channel ((data.drop (place + 2)).take area))
  | spared {place : Nat} {kind : UInt8}
      (hplace : t.offsetOf? (.bandType channel.position) = some place)
      (hkind : data[place]? = some kind) (hdecodes : decodes kind = false)
      (hkeeps : t.Keeps channel)

/-- What a walk from a band on comes to that finishes so many bands. -/
structure Paints (data : List UInt8) (area index done start : Nat) (r : Run (List BandIssue)) :
    Prop where
  forward : start ≤ r.cursor.offset
  finished : ∀ channel : Channel, index ≤ channel.position → channel.position < index + done →
    Finished data area r.trace channel
  kept : ∀ channel : Channel, channel.position < index ∨ index + done ≤ channel.position →
    r.trace.Keeps channel
  samples : ∀ band, band < index ∨ index + done ≤ band → r.trace.offsetOf? (.samples band) = none
  within : ∀ band place, r.trace.offsetOf? (.samples band) = some place →
    start + 2 ≤ place ∧ place + area ≤ r.cursor.offset
  apart : ∀ band other place place', band < other →
    r.trace.offsetOf? (.samples band) = some place →
    r.trace.offsetOf? (.samples other) = some place' → place + area ≤ place'
  reached : ∀ issues, r.result = .ok issues → ∀ band, index + done ≤ band →
    r.trace.offsetOf? (.bandType band) = none
  leftOut : ∀ issues, r.result = .ok issues → ∀ issue ∈ issues, index ≤ issue.band ∧
    ∀ channel : Channel, channel.position = issue.band → r.trace.Keeps channel

section Traces
variable {s t : Trace}

theorem Finished.append (h : Finished data area s channel) (ht : t.Keeps channel) :
    Finished data area (s ++ t) channel := by
  cases h with
  | filled hplace hkind hdecodes hsamples hfits hshows =>
      exact .filled (Trace.offsetOf?_append_of_some hplace) hkind hdecodes
        (Trace.offsetOf?_append_of_some hsamples) hfits (hshows.append ht)
  | spared hplace hkind hdecodes hkeeps =>
      exact .spared (Trace.offsetOf?_append_of_some hplace) hkind hdecodes (hkeeps.append ht)

/-- A trace that concerns another band and paints another channel may stand in front. -/
theorem Finished.prepend (h : Finished data area t channel) (hs : s.Keeps channel)
    (hconcerns : Concerns index s) (hne : channel.position ≠ index) :
    Finished data area (s ++ t) channel := by
  have hreach : ∀ role : Role, role.band? = some channel.position →
      (s ++ t).offsetOf? role = t.offsetOf? role := fun role hrole =>
    Trace.offsetOf?_append_of_none (hconcerns role _ hrole hne)
  cases h with
  | filled hplace hkind hdecodes hsamples hfits hshows =>
      exact .filled (by rw [hreach _ rfl, hplace]) hkind hdecodes (by rw [hreach _ rfl, hsamples])
        hfits hshows.prepend
  | spared hplace hkind hdecodes hkeeps =>
      exact .spared (by rw [hreach _ rfl, hplace]) hkind hdecodes (hs.append hkeeps)

/-- A walk that gives up in its first band, or has none. -/
theorem quiet_paints {result : Except Fault (List BandIssue)} {c' : Cursor}
    (hle : start ≤ c'.offset) (ht : t.Quiet index)
    (hresult : ∀ issues, result = .ok issues → issues = [] ∧ t = []) :
    Paints data area index 0 start ⟨result, c', t⟩ where
  forward := hle
  finished := fun channel hlow hhigh => by omega
  kept := fun channel _ => ht.keeps channel
  samples := fun band _ => ht.samples band
  within := fun band place h => by rw [ht.samples] at h; cases h
  apart := fun band _ _ _ _ h => by rw [ht.samples] at h; cases h
  reached := fun issues hok band _ => by
    rw [(hresult issues hok).2]
    rfl
  leftOut := fun issues hok issue hissue => by
    rw [(hresult issues hok).1] at hissue
    exact absurd hissue List.not_mem_nil

theorem nothing_paints (c : Cursor) : Paints data area index 0 c.offset ⟨.ok [], c, []⟩ :=
  quiet_paints (Nat.le_refl _) .nil fun issues hok => by
    cases hok
    exact ⟨rfl,rfl⟩

/-- A finished band in front of others. -/
theorem Paints.cons {after : Run (List BandIssue)} {middle : Nat} {xs : List BandIssue}
    (hchannel : channel.position = index) (hfinished : Finished data area s channel)
    (hconcerns : Concerns index s) (hothers : ∀ other, other ≠ channel → s.Keeps other)
    (hspan : ∀ place, s.offsetOf? (.samples index) = some place →
      start + 2 ≤ place ∧ place + area ≤ middle) (hmiddle : start ≤ middle)
    (hxs : ∀ issue ∈ xs, issue.band = index ∧ s.Keeps channel)
    (h : Paints data area (index + 1) done middle after) :
    Paints data area index (done + 1) start (resume xs s after) := by
  have hsame : ∀ other : Channel, other.position = index → other = channel := by
    intro other hband
    have heq := Channel.ofBand?_eq_some.mpr hchannel
    rw [Channel.ofBand?_eq_some.mpr hband] at heq
    exact Option.some.inj heq
  have hother : ∀ other : Channel, other.position ≠ index → s.Keeps other := fun other hne =>
    hothers other (by rintro rfl; exact hne hchannel)
  have hahead : ∀ role : Role, ∀ band, role.band? = some band → band ≠ index →
      (s ++ after.trace).offsetOf? role = after.trace.offsetOf? role := fun role band hrole hne =>
    Trace.offsetOf?_append_of_none (hconcerns role band hrole hne)
  have hown : (s ++ after.trace).offsetOf? (.samples index) = s.offsetOf? (.samples index) := by
    rw [Trace.offsetOf?_append, h.samples index (.inl (Nat.lt_succ_self index)), Option.or_none]
  -- Samples are those of the first band or of a later one.
  have hfound : ∀ band place, (s ++ after.trace).offsetOf? (.samples band) = some place →
      band = index ∧ s.offsetOf? (.samples index) = some place ∨
        index < band ∧ after.trace.offsetOf? (.samples band) = some place := by
    intro band place hplace
    by_cases hband : band = index
    · subst hband
      exact .inl ⟨rfl,hown ▸ hplace⟩
    · rw [hahead _ band rfl hband] at hplace
      rcases Nat.lt_or_gt_of_ne hband with hlt | hgt
      · rw [h.samples band (.inl (Nat.lt_succ_of_lt hlt))] at hplace
        cases hplace
      · exact .inr ⟨hgt,hplace⟩
  constructor
  case forward => exact Nat.le_trans hmiddle h.forward
  case finished =>
    intro other hlow hhigh
    by_cases hband : other.position = index
    · obtain rfl : other = channel := hsame other hband
      exact hfinished.append (h.kept other (.inl (by omega)))
    · exact (h.finished other (by omega) (by omega)).prepend (hother other hband) hconcerns hband
  case kept =>
    intro other hout
    exact (hother other (by omega)).append (h.kept other (by omega))
  case samples =>
    intro band hout
    rw [resume, hahead _ band rfl (by omega)]
    exact h.samples band (by omega)
  case within =>
    intro band place hplace
    have hforward := h.forward
    rcases hfound band place hplace with ⟨-,hown⟩ | ⟨-,hlater⟩
    · have hbounds := hspan place hown
      exact ⟨hbounds.1,Nat.le_trans hbounds.2 hforward⟩
    · have hbounds := h.within band place hlater
      exact ⟨by omega,hbounds.2⟩
  case apart =>
    intro band other place place' hlt hplace hplace'
    rcases hfound other place' hplace' with ⟨rfl,-⟩ | ⟨-,hlater'⟩
    · rcases hfound band place hplace with ⟨rfl,-⟩ | ⟨hgt,-⟩ <;> omega
    · rcases hfound band place hplace with ⟨-,hown⟩ | ⟨-,hlater⟩
      · have hbounds := hspan place hown
        have hbounds' := h.within other place' hlater'
        omega
      · exact h.apart band other place place' hlt hlater hlater'
  case reached =>
    intro issues hok band hout
    obtain ⟨later,hlater,-⟩ := ok_of_resume hok
    rw [resume, hahead _ band rfl (by omega)]
    exact h.reached later hlater band (by omega)
  case leftOut =>
    intro issues hok issue hissue
    obtain ⟨later,hlater,rfl⟩ := ok_of_resume hok
    rcases List.mem_append.mp hissue with hissue | hissue
    · obtain ⟨hband,hkeeps⟩ := hxs issue hissue
      refine ⟨Nat.le_of_eq hband.symm,fun other hposition => ?_⟩
      obtain rfl : other = channel := hsame other (hposition.trans hband)
      exact hkeeps.append (h.kept other (.inl (by omega)))
    · obtain ⟨hband,hkeeps⟩ := h.leftOut later hlater issue hissue
      refine ⟨Nat.le_of_succ_le hband,fun other hposition => ?_⟩
      exact (hother other (by omega)).append (hkeeps other hposition)

theorem resume_nothing (issues : List BandIssue) (t : Trace) (c : Cursor) :
    resume issues t ⟨.ok [], c, []⟩ = ⟨.ok issues, c, t⟩ := by
  simp only [resume, Except.map, List.append_nil]

theorem offsetOf?_filling (index offset : Nat) (channel : Channel) (plane : List UInt8) :
    (filling index offset channel plane).offsetOf? (.samples index) = some offset := by
  simp [Trace.offsetOf?, filling, Mark.offsetFor?]

theorem Paints.cons_filled {after : Run (List BandIssue)} {kind : UInt8}
    (hchannel : channel.position = index) (hkind : data[start]? = some kind)
    (hdecodes : decodes kind = true) (hfits : start + 2 + area ≤ data.length)
    (ht : t.Quiet index) (hplace : t.offsetOf? (.bandType index) = some start)
    (h : Paints data area (index + 1) done (start + (2 + area)) after) :
    Paints data area index (done + 1) start
      (resume [] (t ++ filling index (start + 2) channel ((data.drop (start + 2)).take area))
        after) := by
  have hsamples : (t ++ filling index (start + 2) channel
      ((data.drop (start + 2)).take area)).offsetOf? (.samples index) = some (start + 2) := by
    rw [Trace.offsetOf?_append_of_none (ht.samples index), offsetOf?_filling]
  refine .cons hchannel ?_ (ht.concerns.append (concerns_filling _ channel _)) ?_ ?_ (by omega)
    (fun issue hissue => absurd hissue List.not_mem_nil) h
  · refine .filled ?_ hkind hdecodes (by rw [hchannel, hsamples]) hfits ?_
    · rw [hchannel]
      exact Trace.offsetOf?_append_of_some hplace
    · exact .prepend fun i => by rw [paintOn_filling, Image.plane_paint_self]
  · intro other hne
    exact (ht.keeps other).append fun i => by
      rw [paintOn_filling, Image.plane_paint_of_ne i hne]
  · intro place hfound
    rw [hsamples] at hfound
    cases hfound
    omega

theorem Paints.cons_spared {after : Run (List BandIssue)} {kind : UInt8} {issue : BandIssue}
    {middle : Nat} (hchannel : channel.position = index) (hkind : data[start]? = some kind)
    (hdecodes : decodes kind = false) (hband : issue.band = index) (hmiddle : start ≤ middle)
    (ht : t.Quiet index) (hplace : t.offsetOf? (.bandType index) = some start)
    (h : Paints data area (index + 1) done middle after) :
    Paints data area index (done + 1) start (resume [issue] t after) := by
  refine .cons hchannel (.spared (by rw [hchannel, hplace]) hkind hdecodes (ht.keeps channel))
    ht.concerns (fun other _ => ht.keeps other) ?_ hmiddle ?_ h
  · intro place hfound
    rw [ht.samples index] at hfound
    cases hfound
  · intro other hother
    rw [List.mem_singleton.mp hother]
    exact ⟨hband,ht.keeps channel⟩

end Traces

/-- If the walk over so many bands ends in a fault, the bands in front of one that the walk
does not finish can be read without that one, and it brings up the fault. -/
def BreaksBehind (walk : Nat → Run (List BandIssue)) (left done : Nat) : Prop :=
  ∀ fault, (walk left).result = .error fault → done < left ∧
    (∃ issues, (walk done).result = .ok issues) ∧ (walk (done + 1)).result = .error fault

theorem BreaksBehind.cons {walk walk' : Nat → Run (List BandIssue)} {xs : List BandIssue}
    {t : Trace} (hwalk : ∀ n, walk (n + 1) = resume xs t (walk' n))
    (h : BreaksBehind walk' left done) : BreaksBehind walk (left + 1) (done + 1) := by
  intro fault herr
  have hback : ∀ n, (walk' n).result = .error fault → (walk (n + 1)).result = .error fault := by
    intro n hn
    rw [hwalk, resume, hn]
    rfl
  have herr' : (walk' left).result = .error fault := by
    rw [hwalk, resume] at herr
    cases hresult : (walk' left).result with
    | error fault' =>
        rw [hresult] at herr
        exact herr
    | ok issues =>
        rw [hresult] at herr
        cases herr
  obtain ⟨hlt,⟨issues,hok⟩,hbroken⟩ := h fault herr'
  refine ⟨Nat.succ_lt_succ hlt,⟨xs ++ issues,?_⟩,hback _ hbroken⟩
  rw [hwalk, resume, hok]
  rfl

/-- A walk finishes some of its bands and paints what their records say. -/
theorem bandsFrom_paints (passing : Bool) (harea : h.HasArea area) (left : Nat) (c : Cursor)
    (hc : c.Within data) (index : Nat) (hindex : index + left ≤ 4) (first : Option UInt8) :
    ∃ done ≤ left,
      Paints data area index done c.offset ((bandsFrom h passing first index left).run c) ∧
      BreaksBehind (fun n => (bandsFrom h passing first index n).run c) left done := by
  induction left generalizing c index first with
  | zero =>
      exact ⟨0,Nat.le_refl 0,nothing_paints c,fun fault herr => by cases herr⟩
  | succ left ih =>
      obtain ⟨channel,hchannel⟩ := channel_of_lt (by omega : index < 4)
      have hposition := Channel.ofBand?_eq_some.mp hchannel
      have hv : Visited data index area channel c ((visit h passing first index).run c) :=
        visited hc harea hchannel
      generalize hr : (visit h passing first index).run c = r at hv
      cases hv with
      | filled hkind hdecodes hfits ht hplace =>
          have hbehind : (c.advance (2 + area)).Within data := by
            have htotal := hc.total
            exact hc.advance (by omega)
          obtain ⟨done,hle,hpaints,hbreaks⟩ := ih _ hbehind (index + 1) (by omega) _
          refine ⟨done + 1,Nat.succ_le_succ hle,?_,hbreaks.cons fun n => run_bandsFrom_filled hr⟩
          rw [run_bandsFrom_filled hr]
          exact .cons_filled hposition hkind hdecodes hfits ht hplace hpaints
      | @spared _ _ _ _ c' _ hkind hdecodes hband hverdict hc' hmiddle ht hplace =>
          rcases hverdict with rfl | rfl
          · obtain ⟨done,hle,hpaints,hbreaks⟩ := ih c' hc' (index + 1) (by omega) _
            refine ⟨done + 1,Nat.succ_le_succ hle,?_,
              hbreaks.cons fun n => run_bandsFrom_leftOut hr⟩
            rw [run_bandsFrom_leftOut hr]
            exact .cons_spared hposition hkind hdecodes hband hmiddle ht hplace hpaints
          · refine ⟨1,Nat.le_add_left 1 left,?_,?_⟩
            · rw [run_bandsFrom_last hr, ← resume_nothing]
              exact .cons_spared hposition hkind hdecodes hband hmiddle ht hplace
                (nothing_paints c')
            · intro fault herr
              simp only [run_bandsFrom_last hr] at herr
              cases herr
      | @broken fault c' t hle ht =>
          have hbroken : ∀ n, (bandsFrom h passing first index (n + 1)).run c =
              ⟨.error fault, c', t⟩ := fun n => by
            rw [bandsFrom_succ, run_bind_of_error (by rw [hr]), hr]
          refine ⟨0,Nat.zero_le _,?_,?_⟩
          · rw [hbroken]
            exact quiet_paints hle ht fun issues hok => by cases hok
          · intro fault' herr
            simp only [hbroken] at herr ⊢
            exact ⟨Nat.zero_lt_succ left,⟨[],rfl⟩,herr⟩

/-- The number of bands in the header does not matter to the bands that are read. -/
theorem bandsFrom_numBands (h : Header) (passing : Bool) (n : Int) (first : Option UInt8)
    (index left : Nat) :
    bandsFrom { h with numBands := n } passing first index left =
      bandsFrom h passing first index left := by
  induction left generalizing first index with
  | zero => rfl
  | succ left ih =>
      simp only [bandsFrom, ih]
      rfl

theorem rgb_numBands (h : Header) (passing : Bool) (n : Nat) :
    rgb { h with numBands := n } passing = bandsFrom h passing none 0 n :=
  bandsFrom_numBands h passing n none 0 n

/-! ### Sizes of painted images -/

theorem Finished.length_plane {t : Trace} (h : Finished data area t channel) {i : Image}
    (hi : i.HasSize area) : ((t.paintOn i).plane channel).length = area := by
  cases h with
  | filled _ _ _ _ hfits hshows =>
      rw [hshows, List.length_take, List.length_drop]
      omega
  | spared _ _ _ hkeeps => rw [hkeeps, hi]

theorem Paints.hasSize {r : Run (List BandIssue)} (h : Paints data area index done start r)
    {i : Image} (hi : i.HasSize area) : (r.trace.paintOn i).HasSize area := by
  intro channel
  by_cases hin : index ≤ channel.position ∧ channel.position < index + done
  · exact (h.finished channel hin.1 hin.2).length_plane hi
  · rw [h.kept channel (by omega), hi]

/-! ### An only band -/

/-- What reading an only band can come to, as far as the image is concerned. -/
inductive GrayVisited (data : List UInt8) (area : Nat) (c : Cursor) : Run (List BandIssue) → Prop
  | broken {fault : Fault} {c' : Cursor} {t : Trace} (ht : t.Quiet 0) :
      GrayVisited data area c ⟨.error fault, c', t⟩
  | spared {issue : BandIssue} {c' : Cursor} {t : Trace} (ht : t.Quiet 0) :
      GrayVisited data area c ⟨.ok [issue], c', t⟩
  | filled {c' : Cursor} {t : Trace} (hfits : c.offset + 2 + area ≤ data.length)
      (hshows : ∀ channel, channel ≠ .alpha →
        t.Shows channel ((data.drop (c.offset + 2)).take area))
      (hkeeps : t.Keeps .alpha) : GrayVisited data area c ⟨.ok [], c', t⟩

/-- What is done behind the opening of an only band that is left out. -/
theorem grayVisited_spared {kind nodata : UInt8} {rest : List UInt8} {issue : BandIssue}
    (hrest : c.rest = kind :: nodata :: rest)
    (hissue : issue? 0 (.ofByte kind) = some issue) :
    GrayVisited data area c ((grayscale h passing).run c) := by
  have hwhole : (descriptor 0).run c = _ := run_descriptor hrest
  have hquiet := leaves_passTail 0 (.ofByte kind) h.area (c.advance 2)
  have hopen : (opening 0 c.offset kind ++ [Mark.reported (.bandLeftOut issue)]).Quiet 0 :=
    (quiet_opening 0 c.offset kind).append (List.forall_mem_singleton.mpr trivial)
  rw [grayscale, run_bind_of_ok (by rw [hwhole]), hwhole]
  simp only [hissue]
  rw [run_bind_of_ok (by rw [run_report]), run_report]
  cases passing with
  | false => exact .spared hopen
  | true =>
      simp only [if_true]
      generalize hr : (passTail 0 (.ofByte kind) h.area).run (c.advance 2) = r at hquiet
      obtain ⟨result,c',t⟩ := r
      have hmarks := hopen.append hquiet
      rw [List.append_assoc] at hmarks
      cases result with
      | error fault =>
          rw [run_bind_of_error (by rw [hr]), hr]
          exact .broken hmarks
      | ok located =>
          rw [run_bind_of_ok (by rw [hr]), hr]
          simp only [run_pure, List.append_nil]
          exact .spared hmarks

theorem grayVisited (hc : c.Within data) (harea : h.HasArea area) :
    GrayVisited data area c ((grayscale h passing).run c) := by
  rcases opened_or_broken 0 c with ⟨kind,nodata,rest,hrest⟩ | ⟨fault,c',t,hrun,-,ht⟩
  · cases hissue : issue? 0 (.ofByte kind) with
    | some issue => exact grayVisited_spared hrest hissue
    | none =>
        have hmarks := (quiet_opening 0 c.offset kind).append (quiet_ignored kind nodata)
        rcases Nat.lt_or_ge rest.length area with hlen | hlen
        · rw [run_grayscale_lacking hrest harea hissue hlen]
          exact .broken hmarks
        · have hblock : rest = data.drop (c.offset + 2) := by
            rw [← List.drop_drop, ← hc.rest, hrest]
            rfl
          have htotal := hc.total
          rw [Cursor.remaining, hrest, List.length_cons, List.length_cons] at htotal
          rw [run_grayscale_filled hrest harea hissue hlen, ← List.append_assoc, hblock]
          refine .filled (by omega) (fun channel hne => .prepend fun i => ?_)
            ((hmarks.keeps .alpha).append fun i => rfl)
          cases channel with
          | alpha => exact absurd rfl hne
          | _ => rfl
  · rw [grayscale, run_bind_of_error (by rw [hrun]), hrun]
    exact .broken ht

end Visits

end BandStream

end RasterWkb
