import RasterWkb.Proofs.Decoding
import RasterWkb.Proofs.WireBands

/-!
# Bands that were all decoded

If reading the bands of a raster leaves none of them out, the input held a whole
decodable record for every band, and the trace tells where their type and nodata
bytes are. This is the way back from a result to the input: nothing is assumed
about the input but what came of it.
-/
namespace RasterWkb

/-- The place of a mark's bytes, if they were taken for the role. -/
def Mark.offsetFor? (role : Role) : Mark → Option Nat
  | .took r offset _ => if r = role then some offset else none
  | _ => none

namespace Trace

/-- Where the bytes first taken for a role are. -/
def offsetOf? (t : Trace) (role : Role) : Option Nat :=
  t.findSome? (Mark.offsetFor? role)

/-- The byte of a buffer that was taken for a role. -/
def byteOf (t : Trace) (data : List UInt8) (role : Role) : UInt8 :=
  ((t.offsetOf? role).bind fun offset => data[offset]?).getD 0

theorem offsetOf?_append (s t : Trace) (role : Role) :
    (s ++ t).offsetOf? role = (s.offsetOf? role).or (t.offsetOf? role) :=
  List.findSome?_append

/-- A trace that begins at the cursor tells that the byte was taken for the role. -/
def Took (t : Trace) (c : Cursor) (role : Role) (b : UInt8) : Prop :=
  ∃ place, t.offsetOf? role = some (c.offset + place) ∧ c.rest[place]? = some b

variable {s t : Trace} {c : Cursor} {role : Role} {b : UInt8}

theorem Took.append (h : s.Took c role b) : (s ++ t).Took c role b := by
  obtain ⟨place,hplace,hb⟩ := h
  refine ⟨place,?_,hb⟩
  rw [offsetOf?_append, hplace]
  rfl

/-- What is told behind a cursor is told from the cursor on, if the trace in between has
nothing to tell about the role. -/
theorem Took.prepend {after : Cursor} {n : Nat} (hoffset : after.offset = c.offset + n)
    (hrest : after.rest = c.rest.drop n) (hs : s.offsetOf? role = none)
    (h : t.Took after role b) : (s ++ t).Took c role b := by
  obtain ⟨place,hplace,hb⟩ := h
  refine ⟨n + place,?_,?_⟩
  · rw [offsetOf?_append, hs, hplace, hoffset, Nat.add_assoc]
    rfl
  · rw [← hb, hrest, List.getElem?_drop]

theorem Took.byteOf {data : List UInt8} {order : Option ByteOrder}
    (h : t.Took (.start data order) role b) : t.byteOf data role = b := by
  obtain ⟨place,hplace,hb⟩ := h
  rw [Trace.byteOf, hplace, Cursor.start, Nat.zero_add, Option.bind_some]
  exact congrArg (·.getD 0) hb

end Trace

/-- The band that bytes were taken for. -/
def Role.band? : Role → Option Nat
  | .field => none
  | .bandType band | .nodata band | .samples band | .passed band => some band

namespace BandStream
variable {area : Nat} {h : Header} {passing : Bool} {c : Cursor} {index : Nat}

theorem issue?_eq_none {d : Descriptor} (h : issue? index d = none) :
    d.isOffline = false ∧ ∃ t, d.pixelType? = some t ∧ t.isSupported = true := by
  unfold issue? at h
  split at h
  · cases h
  · next honline =>
      split at h
      · next hs =>
          unfold Descriptor.isSupported at hs
          constructor
          · exact Bool.eq_false_iff.mpr honline
          · cases ht : d.pixelType? with
            | none =>
                rw [ht] at hs
                cases hs
            | some t =>
                rw [ht] at hs
                exact ⟨t,rfl,hs⟩
      · cases h

/-- The record of a band that was decoded. -/
theorem exists_wireBand {kind : UInt8} {samples : List UInt8}
    (hissue : issue? index (.ofByte kind) = none) (hlen : samples.length = area)
    (nodata : UInt8) :
    ∃ r : WireBand area, r.type.isSupported = true ∧ r.kind = kind ∧ r.nodata = [nodata] ∧
      r.samples = samples := by
  obtain ⟨honline,t,htype,hs⟩ := issue?_eq_none hissue
  have hone := WireBand.byteSize_of_supported hs
  exact ⟨⟨kind,t,honline,htype,by omega,[nodata],samples,hone.symm,by rw [hone, Nat.mul_one, hlen]⟩,
    hs,rfl,rfl,rfl⟩

/-- A record for each band in front of the cursor, and a trace that tells their first bytes. -/
structure Found (index : Nat) (c : Cursor) (t : Trace) (rs : List (WireBand area)) : Prop where
  supported : ∀ r ∈ rs, r.type.isSupported = true
  rest : ∃ tail, c.rest = WireBand.stream rs ++ tail
  kind : ∀ (k : Nat) (hk : k < rs.length), t.Took c (.bandType (index + k)) rs[k].kind
  nodata : ∀ (k : Nat) (hk : k < rs.length), t.Took c (.nodata (index + k)) (rs[k].nodata.headD 0)

theorem Found.nil (c : Cursor) (t : Trace) :
    Found index c t ([] : List (WireBand area)) where
  supported := fun _ hr => absurd hr List.not_mem_nil
  rest := ⟨c.rest,rfl⟩
  kind := fun _ hk => absurd hk (Nat.not_lt_zero _)
  nodata := fun _ hk => absurd hk (Nat.not_lt_zero _)

/-- The trace tells nothing about bands other than the one of the index. -/
def Concerns (index : Nat) (t : Trace) : Prop :=
  ∀ (role : Role) (band : Nat), role.band? = some band → band ≠ index → t.offsetOf? role = none

theorem Concerns.append {s t : Trace} (hs : Concerns index s) (ht : Concerns index t) :
    Concerns index (s ++ t) := by
  intro role band hrole hband
  rw [Trace.offsetOf?_append, hs role band hrole hband, ht role band hrole hband]
  rfl

theorem Concerns.took {r : Role} {t : Trace} (hr : r.band? = some index) (ht : Concerns index t)
    (offset size : Nat) : Concerns index (.took r offset size :: t) := by
  intro role band hrole hband
  have hne : r ≠ role := by
    rintro rfl
    rw [hr, Option.some.injEq] at hrole
    exact hband hrole.symm
  have hrest := ht role band hrole hband
  unfold Trace.offsetOf? at hrest
  unfold Trace.offsetOf?
  rw [List.findSome?_cons, Mark.offsetFor?, if_neg hne]
  exact hrest

theorem Concerns.nil : Concerns index [] := fun _ _ _ _ => rfl

theorem concerns_opening (offset : Nat) (kind : UInt8) :
    Concerns index (opening index offset kind) :=
  Concerns.took rfl (Concerns.took (t := []) (r := .nodata index) rfl .nil (offset + 1) 1) offset 1

theorem concerns_differing (nodata : UInt8) (first : Option UInt8) :
    Concerns index (differing index nodata first) := by
  intro role band _ _
  cases first with
  | none => rfl
  | some f =>
      rw [differing]
      split <;> rfl

theorem concerns_filling (offset : Nat) (channel : Channel) (samples : List UInt8) :
    Concerns index (filling index offset channel samples) :=
  Concerns.took (t := [.painted channel samples]) rfl (fun _ _ _ _ => rfl) offset samples.length

theorem concerns_ignored (kind nodata : UInt8) : Concerns 0 (ignored kind nodata) := by
  intro role band _ _
  unfold ignored
  split <;> rfl

theorem concerns_graying (offset : Nat) (samples : List UInt8) :
    Concerns 0 (graying offset samples) :=
  Concerns.took rfl (fun _ _ _ _ => rfl) offset samples.length

theorem offsetOf?_opening_kind (index offset : Nat) (kind : UInt8) :
    (opening index offset kind).offsetOf? (.bandType index) = some offset := by
  simp [Trace.offsetOf?, opening, Mark.offsetFor?]

theorem offsetOf?_opening_nodata (index offset : Nat) (kind : UInt8) :
    (opening index offset kind).offsetOf? (.nodata index) = some (offset + 1) := by
  simp [Trace.offsetOf?, opening, Mark.offsetFor?, List.findSome?]

theorem took_kind {kind nodata : UInt8} {rest : List UInt8}
    (hrest : c.rest = kind :: nodata :: rest) :
    (opening index c.offset kind).Took c (.bandType index) kind :=
  ⟨0,offsetOf?_opening_kind index c.offset kind,by rw [hrest]; rfl⟩

theorem took_nodata {kind nodata : UInt8} {rest : List UInt8}
    (hrest : c.rest = kind :: nodata :: rest) :
    (opening index c.offset kind).Took c (.nodata index) nodata :=
  ⟨1,offsetOf?_opening_nodata index c.offset kind,by rw [hrest]; rfl⟩

/-- The record of a band whose opening was read, in front of those of later bands. -/
theorem Found.cons {r : WireBand area} {rs : List (WireBand area)} {s t : Trace} {nodata : UInt8}
    {rest : List UInt8} (hs : r.type.isSupported = true) (hnodata : r.nodata = [nodata])
    (hbytes : c.rest = r.bytes ++ rest) (hconcerns : Concerns index s)
    (h : Found (index + 1) (c.advance (2 + area)) t rs) :
    Found index c (opening index c.offset r.kind ++ s ++ t) (r :: rs) := by
  have hlen : r.bytes.length = 2 + area := by
    rw [r.length_bytes, WireBand.byteSize_of_supported hs]
    omega
  have hbefore := (concerns_opening c.offset r.kind).append hconcerns
  have hlook : c.rest = r.kind :: nodata :: (r.samples ++ rest) := by
    rw [hbytes, WireBand.bytes, hnodata]
    rfl
  constructor
  · intro other hother
    rcases List.mem_cons.mp hother with rfl | hother
    · exact hs
    · exact h.supported other hother
  · obtain ⟨tail,htail⟩ := h.rest
    refine ⟨tail,?_⟩
    rw [Cursor.rest_advance, hbytes, ← hlen, List.drop_left] at htail
    rw [hbytes, htail, WireBand.stream_cons, List.append_assoc]
  · intro k hk
    cases k with
    | zero => exact (took_kind hlook).append.append
    | succ k =>
        have htook := h.kind k (Nat.lt_of_succ_lt_succ hk)
        rw [Nat.add_assoc, Nat.add_comm 1] at htook
        exact htook.prepend rfl rfl (hbefore _ _ rfl (by omega))
  · intro k hk
    cases k with
    | zero =>
        have hhead : (r :: rs)[0].nodata.headD 0 = nodata := by
          rw [List.getElem_cons_zero, hnodata]
          rfl
        rw [hhead]
        exact (took_nodata hlook).append.append
    | succ k =>
        have htook := h.nodata k (Nat.lt_of_succ_lt_succ hk)
        rw [Nat.add_assoc, Nat.add_comm 1] at htook
        exact htook.prepend rfl rfl (hbefore _ _ rfl (by omega))

/-- What is read in front of a decoded band and its samples is its record. -/
theorem Found.cons_filled {kind nodata : UInt8} {rest : List UInt8} {s t : Trace}
    {rs : List (WireBand area)} (hrest : c.rest = kind :: nodata :: rest)
    (hissue : issue? index (.ofByte kind) = none) (hlen : area ≤ rest.length)
    (hconcerns : Concerns index s) (h : Found (index + 1) (c.advance (2 + area)) t rs) :
    ∃ r : WireBand area, Found index c (opening index c.offset kind ++ s ++ t) (r :: rs) := by
  obtain ⟨r,hs,rfl,hnodata,hsamples⟩ := exists_wireBand hissue (List.length_take_of_le hlen) nodata
  have hbytes : c.rest = r.bytes ++ rest.drop area := by
    rw [hrest, WireBand.bytes, hnodata, hsamples, List.singleton_append, List.cons_append,
      List.cons_append, List.take_append_drop]
  exact ⟨r,.cons hs hnodata hbytes hconcerns h⟩

theorem visit_filled_of_ok {first : Option UInt8} {left : Nat}
    (hok : ((bandsFrom h passing first index (left + 1)).run c).result = .ok []) :
    ∃ nodata, ((visit h passing first index).run c).result = .ok (nodata, .filled) := by
  generalize hr : (visit h passing first index).run c = r
  obtain ⟨result,after,t⟩ := r
  match result with
  | .error fault =>
      rw [bandsFrom_succ, Reading.run_bind_of_error (by rw [hr])] at hok
      cases hok
  | .ok (nodata, .filled) => exact ⟨nodata,rfl⟩
  | .ok (nodata, .leftOut issue) =>
      rw [run_bandsFrom_leftOut hr] at hok
      obtain ⟨later,-,heq⟩ := ok_of_resume hok
      cases heq
  | .ok (nodata, .last issue) =>
      rw [run_bandsFrom_last hr] at hok
      cases hok

/-- A walk that leaves out no band has found a record for each. -/
theorem bandsFrom_found (harea : h.HasArea area) (hsmall : area < 2 ^ (60 : Nat)) (left : Nat)
    (c : Cursor) (index : Nat) (hindex : index + left ≤ 4) (first : Option UInt8)
    (hok : ((bandsFrom h passing first index left).run c).result = .ok []) :
    ∃ rs : List (WireBand area), rs.length = left ∧
      Found index c ((bandsFrom h passing first index left).run c).trace rs := by
  induction left generalizing c index first with
  | zero => exact ⟨[],rfl,.nil c _⟩
  | succ left ih =>
      obtain ⟨channel,hchannel⟩ := channel_of_lt (by omega : index < 4)
      obtain ⟨nodata₁,hfilled⟩ := visit_filled_of_ok hok
      have hv : Outcome h passing first index area channel c
          ((visit h passing first index).run c) := visit_outcome harea hsmall hchannel
      generalize hr : (visit h passing first index).run c = r at hv hfilled
      cases hv with
      | @filled kind nodata rest hrest hissue hlen =>
          rw [run_bandsFrom_filled hr, resume_nil_result] at hok
          obtain ⟨rs,hlength,hfound⟩ := ih _ (index + 1) (by omega) _ hok
          obtain ⟨r,hrs⟩ := Found.cons_filled hrest hissue hlen
            ((concerns_differing nodata first).append
              (concerns_filling (c.offset + 2) channel (rest.take area))) hfound
          rw [run_bandsFrom_filled hr, resume]
          exact ⟨r :: rs,by rw [List.length_cons, hlength],hrs⟩
      | _ => cases hfilled

theorem grayscale_found (harea : h.HasArea area) (hsmall : area < 2 ^ (60 : Nat))
    (hok : ((grayscale h passing).run c).result = .ok []) :
    ∃ r : WireBand area, Found 0 c ((grayscale h passing).run c).trace [r] := by
  have ho : GrayOutcome passing area c ((grayscale h passing).run c) :=
    grayscale_outcome harea hsmall
  generalize (grayscale h passing).run c = r at ho hok
  cases ho with
  | @filled kind nodata rest hrest hissue hlen =>
      obtain ⟨r,hr⟩ := Found.cons_filled hrest hissue hlen
        ((concerns_ignored kind nodata).append
          (concerns_graying (c.offset + 2) (rest.take area))) (.nil (c.advance (2 + area)) [])
      rw [List.append_nil] at hr
      exact ⟨r,hr⟩
  | _ => cases hok

theorem readBands_found (hn : h.numBands = 1 ∨ h.numBands = 3) (harea : h.HasArea area)
    (hsmall : area < 2 ^ (60 : Nat)) (hok : ((Raster.readBands h passing).run c).result = .ok []) :
    ∃ rs : List (WireBand area), h.numBands = rs.length ∧
      Found 0 c ((Raster.readBands h passing).run c).trace rs := by
  rcases hn with hn | hn
  · rw [Raster.readBands, if_pos hn] at hok ⊢
    obtain ⟨r,hfound⟩ := grayscale_found harea hsmall hok
    exact ⟨[r],hn,hfound⟩
  · have hne : ¬h.numBands = 1 := by omega
    rw [Raster.readBands, if_neg hne, if_pos hn, rgb] at hok ⊢
    obtain ⟨rs,hlength,hfound⟩ := bandsFrom_found harea hsmall _ c 0 (by omega) none hok
    exact ⟨rs,by omega,hfound⟩

end BandStream

/-- The header tells nothing about bands. -/
theorem Raster.offsetOf?_headerTrace (offset : Nat) (h : Header) {role : Role} {band : Nat}
    (hrole : role.band? = some band) : (headerTrace offset h).offsetOf? role = none := by
  cases role with
  | field => cases hrole
  | _ => rfl

end RasterWkb
