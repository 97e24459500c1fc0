import RasterWkb.Proofs.StayingWalk

/-!
# Where the walks of the two modes part

Whether records are passed over is looked at behind the opening of a band that
cannot be decoded, and nowhere else. Up to the first such band the walks over the
bands are the same in both modes, and without one they are the same to the end.
Behind it one looks for the next record right there, the other behind the rest of
the record. Either way the band is the first that is left out, and the channels
up to its own stay as they were.
-/
namespace RasterWkb

/-- The trace tells that a band was met that cannot be decoded: the type byte at the place
gives the issue, and the nodata byte was read too. -/
structure Trace.Meets (t : Trace) (data : List UInt8) (band place : Nat) (issue : BandIssue) :
    Prop where
  kindAt : t.offsetOf? (.bandType band) = some place
  nodataRead : (t.offsetOf? (.nodata band)).isSome = true
  told : ∃ kind, data[place]? = some kind ∧ BandIssue.ofKind? band kind = some issue

/-- The band is the first one met that cannot be decoded. -/
structure Trace.MeetsFirst (t : Trace) (data : List UInt8) (band place : Nat)
    (issue : BandIssue) : Prop where
  meets : t.Meets data band place issue
  first : ∀ earlier < band, ∀ place issue, ¬t.Meets data earlier place issue

/-- The trace tells of no band that cannot be decoded. -/
def Trace.Tame (t : Trace) (data : List UInt8) : Prop :=
  ∀ band place issue, ¬t.Meets data band place issue

theorem Trace.tame_nil (data : List UInt8) : Trace.Tame [] data := by
  intro band place issue hm
  cases hm.kindAt

namespace BandStream
variable {data : List UInt8} {h : Header} {area index k : Nat} {c : Cursor}
variable {kind nodata : UInt8} {rest : List UInt8} {issue : BandIssue} {t u : Trace}

/-- The trace tells of so many bands from the index on, all of which can be decoded, and it
neither tells of others nor paints on them. -/
structure Decoded (data : List UInt8) (index k : Nat) (t : Trace) : Prop where
  each : ∀ b < k, ∃ place kind, t.offsetOf? (.bandType (index + b)) = some place ∧
    data[place]? = some kind ∧ decodes kind = true
  only : ∀ role band, role.band? = some band → band < index ∨ index + k ≤ band →
    t.offsetOf? role = none
  frame : ∀ (i : Image) (channel : Channel),
    channel.position < index ∨ index + k ≤ channel.position →
      (t.paintOn i).plane channel = i.plane channel

theorem Decoded.nil (data : List UInt8) (index : Nat) : Decoded data index 0 [] where
  each := fun _ hb => absurd hb (Nat.not_lt_zero _)
  only := fun _ _ _ _ => rfl
  frame := fun _ _ _ => rfl

/-- A decoded band in front of others. -/
theorem Decoded.cons {place : Nat} {channel : Channel} {samples : List UInt8}
    (hchannel : Channel.ofBand? index = some channel) (hkind : data[place]? = some kind)
    (hd : decodes kind = true) (hu : Concerns index u)
    (hpaint : ∀ i : Image, u.paintOn i = i.paint channel samples)
    (ht : Decoded data (index + 1) k t) :
    Decoded data index (k + 1) (opening index place kind ++ u ++ t) where
  each := by
    intro b hb
    have hbefore := (concerns_opening place kind).append hu
    cases b with
    | zero =>
        refine ⟨place,kind,?_,hkind,hd⟩
        rw [Nat.add_zero, List.append_assoc, Trace.offsetOf?_append, offsetOf?_opening_kind]
        rfl
    | succ b =>
        obtain ⟨place',kind',hplace,hkind',hd'⟩ := ht.each b (Nat.lt_of_succ_lt_succ hb)
        have hband : index + (b + 1) = index + 1 + b := by omega
        refine ⟨place',kind',?_,hkind',hd'⟩
        rw [Trace.offsetOf?_append, hbefore _ _ rfl (by omega), hband, hplace]
        rfl
  only := by
    intro role band hrole hband
    have hbefore := (concerns_opening place kind).append hu
    rw [Trace.offsetOf?_append, hbefore role band hrole (by omega),
      ht.only role band hrole (by omega)]
    rfl
  frame := by
    intro i other hother
    have hposition := Channel.ofBand?_eq_some.mp hchannel
    have hne : other ≠ channel := by
      rintro rfl
      omega
    rw [Trace.paintOn_append, Trace.paintOn_append, paintOn_opening, hpaint,
      ht.frame _ other (by omega), Image.plane_paint_of_ne i hne]

theorem placed_advance (hplaced : c.rest = data.drop c.offset) (n : Nat) :
    (c.advance n).rest = data.drop (c.advance n).offset := by
  rw [Cursor.rest_advance, Cursor.offset_advance, hplaced, List.drop_drop]

theorem getElem?_of_placed (hplaced : c.rest = data.drop c.offset)
    (hrest : c.rest = kind :: rest) : data[c.offset]? = some kind := by
  have h : (data.drop c.offset)[0]? = data[c.offset]? := List.getElem?_drop
  rw [← hplaced, hrest] at h
  exact h.symm

/-- A band that cannot be decoded is in front of the cursor, or none is. -/
theorem issue_cases (index : Nat) (c : Cursor) :
    (∃ kind nodata rest issue, c.rest = kind :: nodata :: rest ∧
        issue? index (.ofByte kind) = some issue) ∨
      ∀ kind nodata rest, c.rest = kind :: nodata :: rest →
        issue? index (.ofByte kind) = none := by
  by_cases hmet : ∃ kind nodata rest issue, c.rest = kind :: nodata :: rest ∧
      issue? index (.ofByte kind) = some issue
  · exact .inl hmet
  · refine .inr fun kind nodata rest hrest => Option.eq_none_iff_forall_ne_some.mpr ?_
    exact fun issue hissue => hmet ⟨kind,nodata,rest,issue,hrest,hissue⟩

/-- A decoded band in front of what meets none that cannot be decoded. -/
theorem tame_cons {place : Nat} (hkind : data[place]? = some kind) (hd : decodes kind = true)
    (hu : Concerns index u) (ht : t.Tame data) :
    (opening index place kind ++ u ++ t).Tame data := by
  have hbefore := (concerns_opening place kind).append hu
  intro band place' issue hm
  have hat := hm.kindAt
  have hnodata := hm.nodataRead
  rw [Trace.offsetOf?_append] at hat hnodata
  by_cases hband : band = index
  · subst hband
    rw [Trace.offsetOf?_append, offsetOf?_opening_kind] at hat
    cases hat
    obtain ⟨kind',hkind',hissue⟩ := hm.told
    rw [hkind] at hkind'
    cases hkind'
    rw [BandIssue.ofKind?_eq_none_iff.mpr hd] at hissue
    cases hissue
  · rw [hbefore _ band rfl hband, Option.none_or] at hat hnodata
    exact ht band place' issue ⟨hat,hnodata,hm.told⟩

/-- A decodable band whose samples were not read. -/
theorem tame_opening (hplaced : c.rest = data.drop c.offset)
    (hrest : c.rest = kind :: nodata :: rest) (hissue : issue? index (.ofByte kind) = none)
    (hu : Concerns index u) : (opening index c.offset kind ++ u).Tame data := by
  have h := tame_cons (getElem?_of_placed hplaced hrest) (decodes_of_issue? hissue) hu
    (Trace.tame_nil data)
  rwa [List.append_nil] at h

/-- A type byte without a nodata byte. -/
theorem tame_single (index offset : Nat) (kind : UInt8) (data : List UInt8) :
    Trace.Tame [.took (.bandType index) offset 1,.reported (.band index (.ofByte kind))] data := by
  intro band place issue hm
  have hnodata := hm.nodataRead
  simp [Trace.offsetOf?, Mark.offsetFor?] at hnodata

/-- Only a whole opening is looked at. -/
theorem run_descriptor_bind_congr {α : Type} {f g : Descriptor × UInt8 → Reading α}
    (hfg : ∀ kind nodata rest, c.rest = kind :: nodata :: rest →
      f (.ofByte kind, nodata) = g (.ofByte kind, nodata)) :
    (descriptor index >>= f).run c = (descriptor index >>= g).run c := by
  match hrest : c.rest with
  | [] =>
      have hnone : (descriptor index).run c = _ := run_descriptor_nil hrest
      rw [Reading.run_bind_of_error (by rw [hnone]), Reading.run_bind_of_error (by rw [hnone])]
  | [kind] =>
      have hhalf : (descriptor index).run c = _ := run_descriptor_single hrest
      rw [Reading.run_bind_of_error (by rw [hhalf]), Reading.run_bind_of_error (by rw [hhalf])]
  | kind :: nodata :: rest =>
      have hwhole : (descriptor index).run c = _ := run_descriptor hrest
      rw [Reading.run_bind_of_ok (by rw [hwhole]), Reading.run_bind_of_ok (by rw [hwhole]),
        hfg kind nodata rest hrest]

/-- The mode makes no difference to the visit of a band that is decoded or not there. -/
theorem visit_modes {first : Option UInt8}
    (hissue : ∀ kind nodata rest, c.rest = kind :: nodata :: rest →
      issue? index (.ofByte kind) = none) :
    (visit h true first index).run c = (visit h false first index).run c := by
  apply run_descriptor_bind_congr
  intro kind nodata rest hrest
  simp only [hissue kind nodata rest hrest]

/-- How the runs of a walk in the two modes compare: they are the same and meet no band that
cannot be decoded, or they are the same up to the first one. -/
inductive Split (data : List UInt8) (h : Header) (index left : Nat)
    (runs : Bool → Run (List BandIssue)) : Prop
  | alike (heq : runs true = runs false) (htame : (runs false).trace.Tame data)
  | apart {k : Nat} {t : Trace} {c : Cursor} (first : Option UInt8) {kind nodata : UInt8}
      {rest : List UInt8} {issue : BandIssue} (hk : k < left) (hdecoded : Decoded data index k t)
      (hplaced : c.rest = data.drop c.offset) (hrest : c.rest = kind :: nodata :: rest)
      (hissue : issue? (index + k) (.ofByte kind) = some issue)
      (hruns : ∀ passing, runs passing =
        resume [] t ((bandsFrom h passing first (index + k) (left - k)).run c))

/-- A decoded band in front of a walk that is split. -/
theorem Split.cons {left : Nat} {place : Nat} {channel : Channel} (samples : List UInt8)
    {after : Bool → Run (List BandIssue)} {runs : Bool → Run (List BandIssue)}
    (hchannel : Channel.ofBand? index = some channel) (hkind : data[place]? = some kind)
    (hd : decodes kind = true) (hu : Concerns index u)
    (hpaint : ∀ i : Image, u.paintOn i = i.paint channel samples)
    (hruns : ∀ passing, runs passing = resume [] (opening index place kind ++ u) (after passing))
    (hs : Split data h (index + 1) left after) : Split data h index (left + 1) runs := by
  cases hs with
  | alike heq htame =>
      refine .alike (by rw [hruns, hruns, heq]) ?_
      rw [hruns]
      exact tame_cons hkind hd hu htame
  | @apart k t c first kind' nodata rest issue hk hdecoded hplaced hrest hissue hafter =>
      have hband : index + 1 + k = index + (k + 1) := by omega
      rw [hband] at hissue
      refine .apart (k := k + 1) first (Nat.succ_lt_succ hk)
        (hdecoded.cons hchannel hkind hd hu hpaint) hplaced hrest hissue (fun passing => ?_)
      rw [hruns, hafter, resume_resume, hband, Nat.add_sub_add_right]
      rfl

/-- A visit that ends the walk in both modes. -/
theorem Split.stopped {left : Nat} {first : Option UInt8} {fault : Fault} {c' : Cursor}
    (hv : ∀ passing, (visit h passing first index).run c = ⟨.error fault, c', t⟩)
    (ht : t.Tame data) :
    Split data h index (left + 1) fun passing =>
      (bandsFrom h passing first index (left + 1)).run c := by
  have hrun : ∀ passing, (bandsFrom h passing first index (left + 1)).run c =
      ⟨.error fault, c', t⟩ := by
    intro passing
    rw [bandsFrom_succ, Reading.run_bind_of_error (by rw [hv]), hv]
  refine .alike ((hrun true).trans (hrun false).symm) ?_
  simp only [hrun]
  exact ht

theorem bandsFrom_split (harea : h.HasArea area) (hsmall : area < 2 ^ (60 : Nat)) (left : Nat)
    (c : Cursor) (hplaced : c.rest = data.drop c.offset) (index : Nat)
    (hindex : index + left ≤ 4) (first : Option UInt8) :
    Split data h index left fun passing => (bandsFrom h passing first index left).run c := by
  -- The mode is consulted in a band that cannot be decoded and nowhere else, so up to the
  -- first such band the walks are one walk, and its visits are those of either mode.
  induction left generalizing c index first with
  | zero => exact .alike rfl (Trace.tame_nil data)
  | succ left ih =>
      rcases issue_cases index c with ⟨kind,nodata,rest,issue,hrest,hissue⟩ | hnone
      · exact .apart (k := 0) first (Nat.succ_pos left) (.nil data index) hplaced hrest hissue
          fun passing => (resume_nil ((bandsFrom h passing first index (left + 1)).run c)).symm
      · obtain ⟨channel,hchannel⟩ := channel_of_lt (by omega : index < 4)
        have hmodes : (visit h true first index).run c = (visit h false first index).run c :=
          visit_modes hnone
        have hv : Outcome h false first index area channel c
            ((visit h false first index).run c) := visit_outcome harea hsmall hchannel
        generalize hr : (visit h false first index).run c = r at hv
        have hall : ∀ passing, (visit h passing first index).run c = r := by
          intro passing
          cases passing with
          | true => rw [hmodes, hr]
          | false => exact hr
        cases hv with
        | @filled kind nodata rest hrest hissue hlen =>
            refine (ih (c.advance (2 + area)) (placed_advance hplaced _) (index + 1) (by omega)
              (some (first.getD nodata))).cons (rest.take area) hchannel
              (getElem?_of_placed hplaced hrest) (decodes_of_issue? hissue)
              ((concerns_differing nodata first).append
                (concerns_filling (c.offset + 2) channel (rest.take area))) ?_ ?_
            · intro i
              rw [Trace.paintOn_append, paintOn_differing, paintOn_filling]
            · exact fun passing => run_bandsFrom_filled (hall passing)
        | staying hrest hissue _ => exact absurd hissue (by rw [hnone _ _ _ hrest]; simp)
        | passed _ _ hmode => cases hmode
        | last _ _ hmode => cases hmode
        | passShort _ _ hmode => cases hmode
        | empty hrest => exact .stopped hall (Trace.tame_nil data)
        | @single kind hrest => exact .stopped hall (tame_single index c.offset kind data)
        | @fillShort kind nodata rest hrest hissue hlen =>
            exact .stopped hall
              (tame_opening hplaced hrest hissue (concerns_differing nodata first))

/-! ### Behind the first band that cannot be decoded -/

/-- A run that met its first band that cannot be decoded behind a trace: if it gets to its
end, that band's issue comes first, and the bands up to it show what they showed before. -/
structure Leaves (numBands : Int) (k place : Nat) (kind : UInt8) (issue : BandIssue) (t : Trace)
    (r : Run (List BandIssue)) : Prop where
  opened : ∃ u, r.trace = t ++ (opening k place kind ++ u)
  head : ∀ issues, r.result = .ok issues → issues.head? = some issue
  kept : ∀ issues, r.result = .ok issues → ∀ (channel : Channel) (band : Nat),
    channel.bandOf? numBands = some band → band ≤ k → ∀ i : Image,
      (r.trace.paintOn i).plane channel = (t.paintOn i).plane channel

/-- The run broke off where it should have passed over the rest of the record at the place. -/
def BreaksPassing {α : Type} (data : List UInt8) (area : Int) (place : Nat) (r : Run α) : Prop :=
  ∃ (kind : UInt8) (size : Nat), data[place]? = some kind ∧
    (Descriptor.ofByte kind).tail? area = some (size : Int) ∧ data.length < place + 2 + size ∧
    r.result = .error (.decode (.bufferUnderrun (place + 2) size (data.length - (place + 2)))) ∧
    r.cursor.offset = place + 2

/-- A run that met its last band, which cannot be decoded, behind a trace: the band is left
out, unless the rest of its record should have been passed over and is cut off. -/
structure LeavesLast (passing : Bool) (data : List UInt8) (area : Int) (k place : Nat)
    (kind : UInt8) (issue : BandIssue) (t : Trace) (r : Run (List BandIssue)) : Prop where
  opened : ∃ u, r.trace = t ++ (opening k place kind ++ u)
  painted : ∀ i : Image, r.trace.paintOn i = t.paintOn i
  ends : r.result = .ok [issue] ∨ passing = true ∧ BreaksPassing data area place r

/-- A band that cannot be decoded is left out, whatever the mode does about it. -/
theorem visit_of_issue {passing : Bool} {first : Option UInt8}
    (hrest : c.rest = kind :: nodata :: rest) (hissue : issue? index (.ofByte kind) = some issue) :
    ∃ result c' u, (visit h passing first index).run c =
        ⟨result, c', opening index c.offset kind ++ u⟩ ∧
      (result = .ok (nodata, .leftOut issue) ∨ result = .ok (nodata, .last issue) ∨
        ∃ fault, result = .error fault) := by
  refine ⟨_,_,_,run_visit_of_issue hrest hissue,?_⟩
  cases hleave : ((leaveOut h passing index (.ofByte kind) issue).run (c.advance 2)).result with
  | error fault => exact .inr (.inr ⟨fault,by rw [Reading.run_bind_of_error hleave]⟩)
  | ok goesOn =>
      rw [Reading.run_bind_of_ok hleave]
      cases goesOn with
      | true => exact .inl rfl
      | false => exact .inr (.inl rfl)

theorem bandsFrom_of_issue {passing : Bool} {first : Option UInt8} (left : Nat)
    (hrest : c.rest = kind :: nodata :: rest)
    (hissue : issue? index (.ofByte kind) = some issue) :
    (∃ u, ((bandsFrom h passing first index (left + 1)).run c).trace =
        opening index c.offset kind ++ u) ∧
      ∀ issues, ((bandsFrom h passing first index (left + 1)).run c).result = .ok issues →
        issues.head? = some issue := by
  obtain ⟨result,c',u,hv,hresult⟩ : ∃ result c' u, (visit h passing first index).run c =
    ⟨result, c', opening index c.offset kind ++ u⟩ ∧ _ := visit_of_issue hrest hissue
  rcases hresult with rfl | rfl | ⟨fault,rfl⟩
  · rw [run_bandsFrom_leftOut hv]
    constructor
    · exact ⟨_,List.append_assoc _ _ _⟩
    · intro issues hok
      obtain ⟨later,-,rfl⟩ := ok_of_resume hok
      rfl
  · rw [run_bandsFrom_last hv]
    refine ⟨⟨u,rfl⟩,fun issues hok => ?_⟩
    cases hok
    rfl
  · rw [bandsFrom_succ, Reading.run_bind_of_error (by rw [hv]), hv]
    exact ⟨⟨u,rfl⟩,fun issues hok => by cases hok⟩

/-- The rest of a walk from the first band on that cannot be decoded. -/
theorem leaves_of_walk {passing : Bool} {first : Option UInt8} {left : Nat}
    (harea : h.HasArea area) (hsmall : area < 2 ^ (60 : Nat)) (hindex : index + (left + 1) ≤ 4)
    (hrest : c.rest = kind :: nodata :: rest)
    (hissue : issue? index (.ofByte kind) = some issue) (t : Trace) :
    Leaves 3 index c.offset kind issue t
      (resume [] t ((bandsFrom h passing first index (left + 1)).run c)) := by
  have hw : Walked area index (left + 1)
      ((bandsFrom h passing first index (left + 1)).run c) :=
    walked harea hsmall (left + 1) c index hindex first
  obtain ⟨⟨u,htrace⟩,hhead⟩ := @bandsFrom_of_issue h _ _ _ _ _ _ passing first left hrest hissue
  constructor
  · exact ⟨u,by rw [resume, htrace]⟩
  · intro issues hok
    rw [resume_nil_result] at hok
    exact hhead issues hok
  · intro issues hok channel band hchannel hle i
    rw [resume_nil_result] at hok
    obtain ⟨-,hposition⟩ := Channel.bandOf?_three hchannel
    rw [resume, Trace.paintOn_append]
    rcases Nat.lt_or_eq_of_le hle with hlt | heq
    · exact hw.frame _ channel (.inl (by omega))
    · have hmem : issue ∈ issues := List.mem_of_mem_head? (hhead issues hok)
      have hband : issue.band = index := issue?_band hissue
      exact hw.leftOut issues hok issue hmem channel (by omega) _

theorem length_of_placed (hplaced : c.rest = data.drop c.offset)
    (hrest : c.rest = kind :: nodata :: rest) :
    c.offset + 2 + rest.length = data.length ∧ rest.length = data.length - (c.offset + 2) := by
  have h : (data.drop c.offset).length = rest.length + 2 := by
    rw [← hplaced, hrest]
    rfl
  rw [List.length_drop] at h
  omega

/-- The last band of a walk, if it cannot be decoded. -/
theorem leavesLast_of_walk {passing : Bool} {first : Option UInt8} (harea : h.HasArea area)
    (hsmall : area < 2 ^ (60 : Nat)) (hplaced : c.rest = data.drop c.offset)
    (hrest : c.rest = kind :: nodata :: rest)
    (hissue : issue? index (.ofByte kind) = some issue) (t : Trace) :
    LeavesLast passing data h.area index c.offset kind issue t
      (resume [] t ((bandsFrom h passing first index 1).run c)) := by
  have quiet : ∀ {u : Trace}, (∀ i : Image, u.paintOn i = i) → ∀ i : Image,
      Trace.paintOn (t ++ (opening index c.offset kind ++ u)) i = t.paintOn i := by
    intro u hu i
    rw [Trace.paintOn_append, Trace.paintOn_append, paintOn_opening, hu]
  have htail := (Descriptor.ofByte kind).tail?_cases hsmall
  rw [← harea.area_eq] at htail
  cases passing with
  | false =>
      rw [run_bandsFrom_leftOut (run_visit_staying hrest hissue)]
      exact ⟨⟨_,rfl⟩,quiet fun _ => rfl,.inl rfl⟩
  | true =>
      rcases htail with htail | ⟨n,hn,htail⟩
      · rw [run_bandsFrom_last (run_visit_last hrest hissue htail)]
        exact ⟨⟨_,rfl⟩,quiet fun _ => rfl,.inl rfl⟩
      · rcases Nat.lt_or_ge rest.length n with hlt | hle
        · have hv : (visit h true first index).run c = _ :=
            run_visit_pass_short hrest hissue htail hn hlt
          obtain ⟨hsum,hleft⟩ := length_of_placed hplaced hrest
          rw [bandsFrom_succ, Reading.run_bind_of_error (by rw [hv]), hv, hleft]
          refine ⟨⟨_,rfl⟩,quiet fun _ => rfl,.inr ⟨rfl,kind,n,?_,htail,by omega,rfl,rfl⟩⟩
          exact getElem?_of_placed hplaced hrest
        · rw [run_bandsFrom_leftOut (run_visit_passed hrest hissue htail hle)]
          exact ⟨⟨_,rfl⟩,quiet fun _ => rfl,.inl rfl⟩

/-- How reading the bands of a raster in the two modes compares. -/
inductive Parting (data : List UInt8) (h : Header) (stay pass : Run (List BandIssue)) : Prop
  | alike (heq : pass = stay) (htame : stay.trace.Tame data)
  | apart {k place : Nat} {kind : UInt8} {issue : BandIssue} {t : Trace}
      (hk : k < h.numBands.toNat) (hdecoded : Decoded data 0 k t) (hkind : data[place]? = some kind)
      (hissue : BandIssue.ofKind? k kind = some issue)
      (hstay : Leaves h.numBands k place kind issue t stay)
      (hpass : Leaves h.numBands k place kind issue t pass)
      (hlast : k + 1 = h.numBands.toNat →
        LeavesLast false data h.area k place kind issue t stay ∧
          LeavesLast true data h.area k place kind issue t pass)

theorem rgb_parting (hn : h.numBands = 3) (harea : h.HasArea area) (hsmall : area < 2 ^ (60 : Nat))
    (hplaced : c.rest = data.drop c.offset) :
    Parting data h ((rgb h false).run c) ((rgb h true).run c) := by
  have hthree : h.numBands.toNat = 3 := by rw [hn]; rfl
  have hs := bandsFrom_split harea hsmall 3 c hplaced 0 (by decide) none
  simp only [rgb, hthree]
  cases hs with
  | alike heq htame => exact .alike heq htame
  | @apart k t c' first kind nodata rest issue hk hdecoded hplaced' hrest hissue hruns =>
      obtain ⟨left,hleft⟩ : ∃ left, 3 - k = left + 1 := ⟨2 - k,by omega⟩
      simp only [Nat.zero_add, hleft] at hissue hruns
      rw [hruns, hruns]
      refine .apart (by rwa [hthree]) hdecoded (getElem?_of_placed hplaced' hrest)
        (issue?_ofByte k kind ▸ hissue) ?_ ?_ fun hlast => ?_
      · rw [hn]
        exact leaves_of_walk harea hsmall (by omega) hrest hissue t
      · rw [hn]
        exact leaves_of_walk harea hsmall (by omega) hrest hissue t
      · obtain rfl : left = 0 := by omega
        exact ⟨leavesLast_of_walk harea hsmall hplaced' hrest hissue t,
          leavesLast_of_walk harea hsmall hplaced' hrest hissue t⟩

/-- The mode makes no difference to an only band that is decoded or not there. -/
theorem grayscale_modes
    (hissue : ∀ kind nodata rest, c.rest = kind :: nodata :: rest →
      issue? 0 (.ofByte kind) = none) :
    (grayscale h true).run c = (grayscale h false).run c := by
  apply run_descriptor_bind_congr
  intro kind nodata rest hrest
  simp only [hissue kind nodata rest hrest]

theorem grayscale_tame (harea : h.HasArea area) (hsmall : area < 2 ^ (60 : Nat))
    (hplaced : c.rest = data.drop c.offset)
    (hissue : ∀ kind nodata rest, c.rest = kind :: nodata :: rest →
      issue? 0 (.ofByte kind) = none) :
    ((grayscale h false).run c).trace.Tame data := by
  have ho : GrayOutcome false area c ((grayscale h false).run c) :=
    grayscale_outcome harea hsmall
  generalize (grayscale h false).run c = r at ho
  cases ho with
  | @filled kind nodata rest hrest hnone hlen =>
      exact tame_opening hplaced hrest hnone ((concerns_ignored kind nodata).append
        (concerns_graying (c.offset + 2) (rest.take area)))
  | @fillShort kind nodata rest hrest hnone hlen =>
      exact tame_opening hplaced hrest hnone (concerns_ignored kind nodata)
  | staying hrest hsome _ => exact absurd hsome (by rw [hissue _ _ _ hrest]; simp)
  | passed _ _ hmode => cases hmode
  | passShort _ _ hmode => cases hmode
  | empty => exact Trace.tame_nil data
  | @single kind hrest => exact tame_single 0 c.offset kind data

theorem leavesLast_of_grayscale {passing : Bool} (harea : h.HasArea area)
    (hsmall : area < 2 ^ (60 : Nat)) (hplaced : c.rest = data.drop c.offset)
    (hrest : c.rest = kind :: nodata :: rest) (hissue : issue? 0 (.ofByte kind) = some issue) :
    LeavesLast passing data h.area 0 c.offset kind issue [] ((grayscale h passing).run c) := by
  have htail := (Descriptor.ofByte kind).tail?_cases hsmall
  rw [← harea.area_eq] at htail
  cases passing with
  | false =>
      rw [run_grayscale_staying hrest hissue]
      exact ⟨⟨_,rfl⟩,fun _ => rfl,.inl rfl⟩
  | true =>
      rcases htail with htail | ⟨n,hn,htail⟩
      · rw [run_grayscale_last hrest hissue htail]
        exact ⟨⟨_,rfl⟩,fun _ => rfl,.inl rfl⟩
      · rcases Nat.lt_or_ge rest.length n with hlt | hle
        · obtain ⟨hsum,hleft⟩ := length_of_placed hplaced hrest
          rw [run_grayscale_pass_short hrest hissue htail hn hlt, hleft]
          refine ⟨⟨_,rfl⟩,fun _ => rfl,.inr ⟨rfl,kind,n,?_,htail,by omega,rfl,rfl⟩⟩
          exact getElem?_of_placed hplaced hrest
        · rw [run_grayscale_passed hrest hissue htail hle]
          exact ⟨⟨_,rfl⟩,fun _ => rfl,.inl rfl⟩

/-- A last band is a band. -/
theorem LeavesLast.leaves {passing : Bool} {numBands : Int} {k place : Nat}
    {r : Run (List BandIssue)}
    (hr : LeavesLast passing data h.area k place kind issue t r) :
    Leaves numBands k place kind issue t r where
  opened := hr.opened
  head := by
    intro issues hok
    rcases hr.ends with hresult | ⟨-,_,_,_,_,_,herr,_⟩
    · rw [hresult] at hok
      cases hok
      rfl
    · rw [herr] at hok
      cases hok
  kept := fun _ _ channel _ _ _ i => congrArg (Image.plane · channel) (hr.painted i)

theorem grayscale_parting (hn : h.numBands = 1) (harea : h.HasArea area)
    (hsmall : area < 2 ^ (60 : Nat)) (hplaced : c.rest = data.drop c.offset) :
    Parting data h ((grayscale h false).run c) ((grayscale h true).run c) := by
  rcases issue_cases 0 c with ⟨kind,nodata,rest,issue,hrest,hissue⟩ | hnone
  · have hlast : ∀ passing, LeavesLast passing data h.area 0 c.offset kind issue []
        ((grayscale h passing).run c) :=
      fun _ => leavesLast_of_grayscale harea hsmall hplaced hrest hissue
    exact .apart (k := 0) (by rw [hn]; decide) (.nil data 0) (getElem?_of_placed hplaced hrest)
      (issue?_ofByte 0 kind ▸ hissue) (hlast false).leaves (hlast true).leaves
      fun _ => ⟨hlast false,hlast true⟩
  · exact .alike (grayscale_modes hnone) (grayscale_tame harea hsmall hplaced hnone)

theorem readBands_parting (hn : h.numBands = 1 ∨ h.numBands = 3) (harea : h.HasArea area)
    (hsmall : area < 2 ^ (60 : Nat)) (hplaced : c.rest = data.drop c.offset) :
    Parting data h ((Raster.readBands h false).run c) ((Raster.readBands h true).run c) := by
  rcases hn with hn | hn
  · simp only [Raster.readBands, if_pos hn]
    exact grayscale_parting hn harea hsmall hplaced
  · have hne : ¬h.numBands = 1 := by omega
    simp only [Raster.readBands, if_neg hne, if_pos hn]
    exact rgb_parting hn harea hsmall hplaced

/-- Behind decoded bands, the opening of a band that cannot be decoded is the first. -/
theorem meetsFirst_iff {place place' band : Nat} {issue' : BandIssue}
    (ht : Decoded data 0 k t) (hkind : data[place]? = some kind)
    (hissue : BandIssue.ofKind? k kind = some issue) :
    (t ++ (opening k place kind ++ u)).MeetsFirst data band place' issue' ↔
      band = k ∧ place' = place ∧ issue' = issue := by
  have hbefore : ∀ role, role.band? = some k → t.offsetOf? role = none := fun role hrole =>
    ht.only role k hrole (.inr (by omega))
  have hat : (t ++ (opening k place kind ++ u)).offsetOf? (.bandType k) = some place := by
    rw [Trace.offsetOf?_append, hbefore _ rfl, Trace.offsetOf?_append, offsetOf?_opening_kind]
    rfl
  have hnodata : (t ++ (opening k place kind ++ u)).offsetOf? (.nodata k) = some (place + 1) := by
    rw [Trace.offsetOf?_append, hbefore _ rfl, Trace.offsetOf?_append, offsetOf?_opening_nodata]
    rfl
  have hmeets : (t ++ (opening k place kind ++ u)).Meets data k place issue :=
    ⟨hat,by rw [hnodata]; rfl,kind,hkind,hissue⟩
  have hnever : ∀ b < k, ∀ p i, ¬(t ++ (opening k place kind ++ u)).Meets data b p i := by
    intro b hb p i hm
    obtain ⟨p',kind',hp',hkind',hd⟩ := ht.each b hb
    rw [Nat.zero_add] at hp'
    have hmat := hm.kindAt
    rw [Trace.offsetOf?_append, hp'] at hmat
    cases hmat
    obtain ⟨kind'',hkind'',hi⟩ := hm.told
    rw [hkind'] at hkind''
    cases hkind''
    rw [BandIssue.ofKind?_eq_none_iff.mpr hd] at hi
    cases hi
  constructor
  · intro hfirst
    have hle : band ≤ k := Nat.le_of_not_lt fun hlt => hfirst.first k hlt place issue hmeets
    have hge : k ≤ band := Nat.le_of_not_lt fun hlt => hnever band hlt _ _ hfirst.meets
    obtain rfl : band = k := Nat.le_antisymm hle hge
    obtain rfl : place = place' := Option.some.inj (hat.symm.trans hfirst.meets.kindAt)
    obtain ⟨kind',hkind',hissue'⟩ := hfirst.meets.told
    rw [hkind] at hkind'
    cases hkind'
    exact ⟨rfl,rfl,Option.some.inj (hissue'.symm.trans hissue)⟩
  · rintro ⟨rfl,rfl,rfl⟩
    exact ⟨hmeets,hnever⟩

end BandStream

end RasterWkb
