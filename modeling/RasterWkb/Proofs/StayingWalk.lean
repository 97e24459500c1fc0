import RasterWkb.Proofs.FoundBands
import RasterWkb.Proofs.Outcomes
import RasterWkb.Proofs.WholeRecords

/-!
# Reading without passing over records

If records are not passed over, a band that is left out gives up two bytes and
the next record is looked for right behind them, inside what may have been meant
as samples. Which bytes become type bytes is then decided by all the type bytes
in front of them. The walk is described by the list of the type bytes that it
meets: their records have two bytes each, and a sample for each pixel if they are
decoded.

Of a raster that comes out, the issues alone tell where each record started and
how far the input was consumed. However the bytes are misread, a walk cannot take
more than it would take if every band were decoded.
-/
namespace RasterWkb

/-- Whether a band with the type byte is decoded: it is stored in the raster, and its
samples are bytes. -/
def decodes (kind : UInt8) : Bool :=
  kind.toNat < 128 && (kind.toNat % 16 == 3 || kind.toNat % 16 == 4)

/-- Why a band with the type byte is left out, if it is; being offline comes first. -/
def BandIssue.ofKind? (band : Nat) (kind : UInt8) : Option BandIssue :=
  if 128 ≤ kind.toNat then some (.offline band)
  else if kind.toNat % 16 = 3 ∨ kind.toNat % 16 = 4 then none
  else some (.unsupportedPixelType band (kind.toNat % 16 : Nat))

namespace BandIssue
variable {band : Nat} {kind : UInt8} {issue : BandIssue}

theorem ofKind?_eq_none_iff : ofKind? band kind = none ↔ decodes kind = true := by
  unfold ofKind? decodes
  by_cases hon : 128 ≤ kind.toNat
  · simp [hon, Nat.not_lt.mpr hon]
  · by_cases hcode : kind.toNat % 16 = 3 ∨ kind.toNat % 16 = 4
    · simp [hon, hcode, Nat.lt_of_not_le hon]
    · simp [hon, hcode]

theorem band_of_ofKind? (h : ofKind? band kind = some issue) : issue.band = band := by
  unfold ofKind? at h
  split at h
  · cases h
    rfl
  · split at h <;> cases h
    rfl

end BandIssue

theorem PixelType.any_isSupported_ofCode? :
    ∀ code < 16, ((ofCode? (code : Nat)).any isSupported) = decide (code = 3 ∨ code = 4) := by
  decide

theorem BandStream.issue?_ofByte (band : Nat) (kind : UInt8) :
    issue? band (.ofByte kind) = BandIssue.ofKind? band kind := by
  have hlt := kind.toNat_lt
  have hoffline : (Descriptor.ofByte kind).isOffline = decide (128 ≤ kind.toNat) := by
    simp only [Descriptor.ofByte, Descriptor.bit, decide_eq_decide]
    omega
  have hcode : (Descriptor.ofByte kind).code = ((kind.toNat % 16 : Nat) : Int) := rfl
  have hsupported : (Descriptor.ofByte kind).isSupported =
      decide (kind.toNat % 16 = 3 ∨ kind.toNat % 16 = 4) := by
    rw [Descriptor.isSupported, Descriptor.pixelType?, hcode]
    exact PixelType.any_isSupported_ofCode? _ (Nat.mod_lt _ (by decide))
  simp only [issue?, BandIssue.ofKind?, hoffline, hsupported, hcode, decide_eq_true_eq]

namespace BandStream

theorem decodes_of_issue? {index : Nat} {kind : UInt8}
    (hissue : issue? index (.ofByte kind) = none) : decodes kind = true :=
  BandIssue.ofKind?_eq_none_iff.mp (issue?_ofByte index kind ▸ hissue)

theorem not_decodes_of_issue? {index : Nat} {kind : UInt8} {issue : BandIssue}
    (hissue : issue? index (.ofByte kind) = some issue) : decodes kind = false := by
  rw [issue?_ofByte] at hissue
  refine Bool.eq_false_iff.mpr fun hdecodes => ?_
  rw [BandIssue.ofKind?_eq_none_iff.mpr hdecodes] at hissue
  cases hissue

/-- The bytes that a record takes when records are not passed over. -/
def recordSize (area : Nat) (kind : UInt8) : Nat :=
  if decodes kind then 2 + area else 2

/-- How far behind the first record the record of the index starts. -/
def place (area : Nat) (kinds : List UInt8) (k : Nat) : Nat :=
  ((kinds.take k).map (recordSize area)).sum

/-- Why the bands with the type bytes are left out, the first of which has the index. -/
def issuesOf (index : Nat) (kinds : List UInt8) : List BandIssue :=
  (kinds.zipIdx index).filterMap fun b => BandIssue.ofKind? b.2 b.1

section Lists
variable {area index : Nat} {kind : UInt8} {kinds : List UInt8} {k : Nat}

@[simp] theorem place_zero : place area kinds 0 = 0 := rfl

@[simp] theorem place_cons_succ :
    place area (kind :: kinds) (k + 1) = recordSize area kind + place area kinds k := rfl

theorem issuesOf_cons : issuesOf index (kind :: kinds) =
    (BandIssue.ofKind? index kind).toList ++ issuesOf (index + 1) kinds := by
  rw [issuesOf, List.zipIdx_cons, List.filterMap_cons]
  cases BandIssue.ofKind? index kind <;> rfl

/-- A band's issue among those of all. -/
theorem mem_issuesOf_iff (hk : k < kinds.length) {issue : BandIssue} :
    issue ∈ issuesOf index kinds ∧ issue.band = index + k ↔
      BandIssue.ofKind? (index + k) kinds[k] = some issue := by
  constructor
  · rintro ⟨hmem,hband⟩
    obtain ⟨⟨kind,band⟩,hb,hissue⟩ := List.mem_filterMap.mp hmem
    obtain rfl : band = index + k := (BandIssue.band_of_ofKind? hissue).symm.trans hband
    obtain ⟨hle,hlt,hkind⟩ := List.mem_zipIdx hb
    simp only [Nat.add_sub_cancel_left] at hkind
    rw [← hkind]
    exact hissue
  · intro hissue
    refine ⟨List.mem_filterMap.mpr ⟨(kinds[k], index + k),?_,hissue⟩,
      BandIssue.band_of_ofKind? hissue⟩
    apply List.mem_zipIdx_iff_le_and_getElem?_sub.mpr
    simp [hk]

theorem mem_bands_issuesOf_iff (hk : k < kinds.length) :
    index + k ∈ (issuesOf index kinds).map BandIssue.band ↔ decodes kinds[k] = false := by
  rw [List.mem_map]
  constructor
  · rintro ⟨issue,hissue⟩
    rw [mem_issuesOf_iff hk] at hissue
    rw [← Bool.not_eq_true, ← @BandIssue.ofKind?_eq_none_iff (index + k), hissue]
    exact Option.some_ne_none issue
  · intro hd
    have hne : BandIssue.ofKind? (index + k) kinds[k] ≠ none := by
      rw [Ne, BandIssue.ofKind?_eq_none_iff, hd]
      decide
    obtain ⟨issue,hissue⟩ := Option.ne_none_iff_exists'.mp hne
    exact ⟨issue,(mem_issuesOf_iff hk).mpr hissue⟩

/-- The place of a record by the bands in front of it that were not left out. -/
theorem place_eq (area index : Nat) (hk : k ≤ kinds.length) :
    place area kinds k = 2 * k + area *
      (List.range k).countP fun b => index + b ∉ (issuesOf index kinds).map BandIssue.band := by
  induction k with
  | zero => rfl
  | succ k ih =>
      have hnext : place area kinds (k + 1) = place area kinds k + recordSize area kinds[k] := by
        rw [place, List.take_succ_eq_append_getElem hk, List.map_append, List.sum_append]
        simp [place]
      rw [hnext, ih (by omega), List.range_succ, List.countP_append, recordSize]
      have hb : index + k ∈ (issuesOf index kinds).map BandIssue.band ↔ decodes kinds[k] = false :=
        mem_bands_issuesOf_iff hk
      cases hd : decodes kinds[k] with
      | true =>
          have hnot : index + k ∉ (issuesOf index kinds).map BandIssue.band := by
            rw [hb, hd]
            decide
          simp only [List.countP_singleton, hnot, not_false_eq_true, decide_true, if_true,
            Nat.mul_add, Nat.mul_one]
          omega
      | false =>
          have hin : index + k ∈ (issuesOf index kinds).map BandIssue.band := hb.mpr hd
          simp only [List.countP_singleton, hin, not_true_eq_false, decide_false,
            Bool.false_eq_true, if_false, Nat.mul_add]
          omega

theorem length_issuesOf_le (index : Nat) (kinds : List UInt8) :
    (issuesOf index kinds).length ≤ kinds.length := by
  have h := List.length_filterMap_le (fun b : UInt8 × Nat => BandIssue.ofKind? b.2 b.1)
    (kinds.zipIdx index)
  rwa [List.length_zipIdx] at h

/-- What all records take, and what those left out do not. -/
theorem place_length (area index : Nat) (kinds : List UInt8) :
    place area kinds kinds.length + area * (issuesOf index kinds).length =
    2 * kinds.length + area * kinds.length := by
  induction kinds generalizing index with
  | nil => rfl
  | cons kind kinds ih =>
      have h := ih (index + 1)
      rw [List.length_cons, place_cons_succ, issuesOf_cons, List.length_append, recordSize]
      simp only [Nat.mul_add, Nat.mul_one]
      have hnone : BandIssue.ofKind? index kind = none ↔ decodes kind = true :=
        BandIssue.ofKind?_eq_none_iff
      cases hd : decodes kind with
      | true =>
          rw [hnone.mpr hd]
          simp only [if_true, Option.toList_none, List.length_nil, Nat.mul_zero]
          omega
      | false =>
          obtain ⟨issue,hissue⟩ := Option.ne_none_iff_exists'.mp fun h => by
            rw [hnone, hd] at h
            cases h
          rw [hissue]
          simp only [Bool.false_eq_true, if_false, Option.toList_some, List.length_singleton,
            Nat.mul_one]
          omega

end Lists

/-- The walk met the type bytes: it read their records one behind the other, and the
channels show those that are decoded. -/
structure Stayed (shows : Channel → Option Nat) (area index : Nat) (c : Cursor)
    (kinds : List UInt8) (r : Run (List BandIssue)) : Prop where
  result : r.result = .ok (issuesOf index kinds)
  offset : r.cursor.offset = c.offset + place area kinds kinds.length
  kind : ∀ (k : Nat) (hk : k < kinds.length), c.rest[place area kinds k]? = some kinds[k]
  opened : ∀ k < kinds.length,
    r.trace.offsetOf? (.bandType (index + k)) = some (c.offset + place area kinds k) ∧
      r.trace.offsetOf? (.nodata (index + k)) = some (c.offset + place area kinds k + 1)
  planes : ∀ (k : Nat) (hk : k < kinds.length) (channel : Channel),
    shows channel = some (index + k) → ∀ i : Image, (r.trace.paintOn i).plane channel =
      if decodes kinds[k] then (c.rest.drop (place area kinds k + 2)).take area
      else i.plane channel

namespace Stayed
variable {shows : Channel → Option Nat} {area index : Nat} {c : Cursor}

theorem nil (c : Cursor) : Stayed shows area index c [] ⟨.ok [], c, []⟩ where
  result := rfl
  offset := rfl
  kind := fun _ hk => absurd hk (Nat.not_lt_zero _)
  opened := fun _ hk => absurd hk (Nat.not_lt_zero _)
  planes := fun _ hk => absurd hk (Nat.not_lt_zero _)

/-- A record in front of those of a walk. What is done behind its two bytes concerns its
own channels only, and the walk keeps these. -/
theorem cons {kind nodata : UInt8} {rest : List UInt8} {kinds : List UInt8} {u : Trace}
    {after : Run (List BandIssue)} (hrest : c.rest = kind :: nodata :: rest)
    (h : Stayed shows area (index + 1) (c.advance (recordSize area kind)) kinds after)
    (hconcerns : Concerns index u)
    (hself : ∀ channel, shows channel = some index → ∀ i : Image,
      (u.paintOn i).plane channel = if decodes kind then rest.take area else i.plane channel)
    (hother : ∀ channel band, shows channel = some band → band ≠ index → ∀ i : Image,
      (u.paintOn i).plane channel = i.plane channel)
    (hkept : ∀ channel, shows channel = some index → ∀ i : Image,
      (after.trace.paintOn i).plane channel = i.plane channel) :
    Stayed shows area index c (kind :: kinds)
      (resume (BandIssue.ofKind? index kind).toList (opening index c.offset kind ++ u) after) where
  result := by
    rw [resume, h.result, issuesOf_cons]
    rfl
  offset := by
    rw [resume, h.offset, List.length_cons, place_cons_succ, Cursor.offset_advance, Nat.add_assoc]
  kind := by
    intro k hk
    cases k with
    | zero =>
        rw [hrest]
        rfl
    | succ k =>
        have hnext := h.kind k (Nat.lt_of_succ_lt_succ hk)
        rw [Cursor.rest_advance, List.getElem?_drop] at hnext
        exact hnext
  opened := by
    intro k hk
    have hbefore := (concerns_opening c.offset kind).append hconcerns
    cases k with
    | zero =>
        simp only [resume, Trace.offsetOf?_append, Nat.add_zero, offsetOf?_opening_kind,
          offsetOf?_opening_nodata, Option.some_or, place_zero, and_self]
    | succ k =>
        obtain ⟨hkind,hnodata⟩ := h.opened k (Nat.lt_of_succ_lt_succ hk)
        have hband : index + (k + 1) = index + 1 + k := by omega
        simp only [resume, Trace.offsetOf?_append (opening index c.offset kind ++ u)]
        rw [hbefore (.bandType (index + (k + 1))) _ rfl (by omega),
          hbefore (.nodata (index + (k + 1))) _ rfl (by omega), hband, hkind, hnodata]
        simp only [Option.none_or, Cursor.offset_advance, place_cons_succ, Nat.add_assoc, and_self]
  planes := by
    intro k hk channel hchannel i
    rw [resume, Trace.paintOn_append, Trace.paintOn_append, paintOn_opening]
    cases k with
    | zero =>
        rw [hkept channel hchannel, hself channel hchannel, hrest]
        rfl
    | succ k =>
        have hnext := h.planes k (Nat.lt_of_succ_lt_succ hk) channel
          (by rw [hchannel]; congr 1; omega) (u.paintOn i)
        rw [hnext, hother channel _ hchannel (by omega), Cursor.rest_advance, List.drop_drop,
          place_cons_succ, List.getElem_cons_succ, Nat.add_assoc]

end Stayed

variable {h : Header} {area index : Nat} {c : Cursor} {first : Option UInt8}

/-- The channel of a band among three. -/
theorem eq_of_bandOf?_three {channel other : Channel}
    (hchannel : Channel.ofBand? index = some channel) (hother : other.bandOf? 3 = some index) :
    other = channel := by
  have h := Channel.ofBand?_eq_some.mpr (Channel.bandOf?_three hother).2
  rw [hchannel] at h
  exact (Option.some.inj h).symm

/-- A decoded band gives up a sample for each pixel, which its channel shows. -/
theorem Stayed.cons_filled {kind nodata : UInt8} {rest : List UInt8} {kinds : List UInt8}
    {after : Run (List BandIssue)} {channel : Channel} (hrest : c.rest = kind :: nodata :: rest)
    (hissue : issue? index (.ofByte kind) = none) (hchannel : Channel.ofBand? index = some channel)
    (h : Stayed (Channel.bandOf? 3) area (index + 1) (c.advance (2 + area)) kinds after)
    (hkept : ∀ channel : Channel, channel.position < index + 1 → ∀ i : Image,
      (after.trace.paintOn i).plane channel = i.plane channel) (first : Option UInt8) :
    Stayed (Channel.bandOf? 3) area index c (kind :: kinds)
      (resume [] (opening index c.offset kind ++ (differing index nodata first ++
        filling index (c.offset + 2) channel (rest.take area))) after) := by
  rw [issue?_ofByte] at hissue
  have hd := BandIssue.ofKind?_eq_none_iff.mp hissue
  have hsize : recordSize area kind = 2 + area := if_pos hd
  rw [← hsize] at h
  have hs := h.cons hrest ((concerns_differing nodata first).append
      (concerns_filling (c.offset + 2) channel (rest.take area))) ?_ ?_ ?_
  · rwa [hissue] at hs
  · intro other hother i
    rw [eq_of_bandOf?_three hchannel hother, Trace.paintOn_append, paintOn_differing,
      paintOn_filling, Image.plane_paint_self, if_pos hd]
  · intro other band hother hne i
    have hne' : other ≠ channel := by
      rintro rfl
      have hp := Channel.ofBand?_eq_some.mp hchannel
      have hp' := (Channel.bandOf?_three hother).2
      omega
    rw [Trace.paintOn_append, paintOn_differing, paintOn_filling, Image.plane_paint_of_ne i hne']
  · intro other hother i
    have hp := (Channel.bandOf?_three hother).2
    exact hkept other (by omega) i

/-- A band that is left out gives up its two bytes and nothing else. -/
theorem Stayed.cons_staying {shows : Channel → Option Nat} {kind nodata : UInt8}
    {rest : List UInt8} {issue : BandIssue} {kinds : List UInt8} {after : Run (List BandIssue)}
    (hrest : c.rest = kind :: nodata :: rest) (hissue : issue? index (.ofByte kind) = some issue)
    (h : Stayed shows area (index + 1) (c.advance 2) kinds after)
    (hkept : ∀ channel, shows channel = some index → ∀ i : Image,
      (after.trace.paintOn i).plane channel = i.plane channel) :
    Stayed shows area index c (kind :: kinds)
      (resume [issue] (opening index c.offset kind ++ [.reported (.bandLeftOut issue)]) after) := by
  rw [issue?_ofByte] at hissue
  have hd : decodes kind = false := by
    rw [← Bool.not_eq_true, ← @BandIssue.ofKind?_eq_none_iff index, hissue]
    exact Option.some_ne_none issue
  have hsize : recordSize area kind = 2 := by
    rw [recordSize, hd]
    rfl
  rw [← hsize] at h
  have hs := h.cons (u := [.reported (.bandLeftOut issue)]) hrest (fun _ _ _ _ => rfl) ?_ ?_ hkept
  · rwa [hissue] at hs
  · intro other _ i
    rw [hd]
    rfl
  · exact fun _ _ _ _ _ => rfl

/-- A walk that does not pass over records, if it gets to its end. -/
theorem bandsFrom_stayed (harea : h.HasArea area) (hsmall : area < 2 ^ (60 : Nat)) (left : Nat)
    (c : Cursor) (index : Nat) (hindex : index + left ≤ 3) (first : Option UInt8)
    (hok : ∃ issues, ((bandsFrom h false first index left).run c).result = .ok issues) :
    ∃ kinds : List UInt8, kinds.length = left ∧
      Stayed (Channel.bandOf? 3) area index c kinds
        ((bandsFrom h false first index left).run c) := by
  -- The next record starts wherever the visit of this one ends, so the cursor varies freely.
  induction left generalizing c index first with
  | zero => exact ⟨[],rfl,.nil c⟩
  | succ left ih =>
      obtain ⟨channel,hchannel⟩ := channel_of_lt (by omega : index < 4)
      have hkept : ∀ (c : Cursor) (first : Option UInt8) (channel : Channel),
          channel.position < index + 1 → ∀ i : Image,
            (((bandsFrom h false first (index + 1) left).run c).trace.paintOn i).plane channel =
              i.plane channel := by
        intro c first channel hchannel i
        exact (walked harea hsmall left c (index + 1) (by omega) first).frame i channel
          (.inl hchannel)
      have hv : Outcome h false first index area channel c
          ((visit h false first index).run c) := visit_outcome harea hsmall hchannel
      generalize hr : (visit h false first index).run c = r at hv
      obtain ⟨issues,hok⟩ := hok
      cases hv with
      | @filled kind nodata rest hrest hissue hlen =>
          rw [run_bandsFrom_filled hr] at hok ⊢
          rw [resume_nil_result] at hok
          obtain ⟨kinds,hlength,hs⟩ := ih _ (index + 1) (by omega) _ ⟨issues,hok⟩
          exact ⟨kind :: kinds,by rw [List.length_cons, hlength],
            hs.cons_filled hrest hissue hchannel (hkept _ _) first⟩
      | @staying kind nodata rest issue hrest hissue _ =>
          rw [run_bandsFrom_leftOut hr] at hok ⊢
          obtain ⟨later,hlater,-⟩ := ok_of_resume hok
          obtain ⟨kinds,hlength,hs⟩ := ih _ (index + 1) (by omega) _ ⟨later,hlater⟩
          refine ⟨kind :: kinds,by rw [List.length_cons, hlength],
            hs.cons_staying hrest hissue fun channel hband i => ?_⟩
          have hp := (Channel.bandOf?_three hband).2
          exact hkept _ _ channel (by omega) i
      | passed _ _ hmode => cases hmode
      | last _ _ hmode => cases hmode
      | _ =>
          rw [bandsFrom_succ, Reading.run_bind_of_error (by rw [hr])] at hok
          cases hok

/-- The only band of a gray raster is a record by itself. -/
theorem grayscale_stayed (harea : h.HasArea area) (hsmall : area < 2 ^ (60 : Nat))
    (hok : ∃ issues, ((grayscale h false).run c).result = .ok issues) :
    ∃ kinds : List UInt8, kinds.length = 1 ∧
      Stayed (Channel.bandOf? 1) area 0 c kinds ((grayscale h false).run c) := by
  have ho : GrayOutcome false area c ((grayscale h false).run c) :=
    grayscale_outcome harea hsmall
  generalize (grayscale h false).run c = r at ho hok
  obtain ⟨issues,hok⟩ := hok
  have honly : ∀ {channel : Channel} {band : Nat}, channel.bandOf? 1 = some band → band = 0 := by
    intro channel band hchannel
    cases channel <;> cases hchannel <;> rfl
  cases ho with
  | @filled kind nodata rest hrest hissue hlen =>
      rw [issue?_ofByte] at hissue
      have hd := BandIssue.ofKind?_eq_none_iff.mp hissue
      have hsize : recordSize area kind = 2 + area := if_pos hd
      have hnil : Stayed (Channel.bandOf? 1) area 1 (c.advance (recordSize area kind)) []
          ⟨.ok [], c.advance (recordSize area kind), []⟩ := .nil _
      have hs := hnil.cons hrest ((concerns_ignored kind nodata).append
        (concerns_graying (c.offset + 2) (rest.take area))) ?_ ?_ (fun _ _ _ => rfl)
      · rw [hissue, resume, hsize, List.append_nil] at hs
        exact ⟨[kind],rfl,hs⟩
      · intro channel hchannel i
        rw [Trace.paintOn_append, paintOn_ignored, paintOn_graying, if_pos hd]
        cases channel with
        | alpha => cases hchannel
        | _ => rfl
      · exact fun _ _ hchannel hne => absurd (honly hchannel) hne
  | @staying kind nodata rest issue hrest hissue _ =>
      have hnil : Stayed (Channel.bandOf? 1) area 1 (c.advance 2) [] ⟨.ok [], c.advance 2, []⟩ :=
        .nil _
      have hs := hnil.cons_staying hrest hissue (fun _ _ _ => rfl)
      rw [resume, List.append_nil] at hs
      exact ⟨[kind],rfl,hs⟩
  | passed _ _ hmode => cases hmode
  | _ => cases hok

theorem readBands_stayed (hn : h.numBands = 1 ∨ h.numBands = 3) (harea : h.HasArea area)
    (hsmall : area < 2 ^ (60 : Nat))
    (hok : ∃ issues, ((Raster.readBands h false).run c).result = .ok issues) :
    ∃ kinds : List UInt8, kinds.length = h.numBands.toNat ∧
      Stayed (Channel.bandOf? h.numBands) area 0 c kinds ((Raster.readBands h false).run c) := by
  rcases hn with hn | hn
  · rw [Raster.readBands, if_pos hn] at hok ⊢
    rw [hn]
    exact grayscale_stayed harea hsmall hok
  · have hne : ¬h.numBands = 1 := by omega
    rw [Raster.readBands, if_neg hne, if_pos hn, rgb] at hok ⊢
    rw [hn] at hok ⊢
    exact bandsFrom_stayed harea hsmall 3 c 0 (by decide) none hok

end BandStream

namespace Raster
open BandStream
variable {s : Settings} {data : List UInt8} {h : Header} {run : Run Raster} {raster : Raster}
variable {area : Nat}

/-- Where the record of a band starts, as told by the bands that were left out: behind the
header, two bytes for each band in front and the samples of those that were decoded. -/
def startOf (area : Nat) (skipped : List BandIssue) (band : Nat) : Nat :=
  61 + 2 * band + area * (List.range band).countP fun b => b ∉ skipped.map BandIssue.band

/-- The band was read from a place of the input: the run took its type and nodata bytes
there, the type byte tells whether and why the band was left out, and its channels show
the bytes behind the two, or nothing. -/
structure ReadAt (data : List UInt8) (h : Header) (area : Nat) (run : Run Raster)
    (raster : Raster) (band place : Nat) : Prop where
  kindAt : run.trace.offsetOf? (.bandType band) = some place
  nodataAt : run.trace.offsetOf? (.nodata band) = some (place + 1)
  leftOut : ∃ kind, data[place]? = some kind ∧
    ∀ issue, issue ∈ raster.skipped ∧ issue.band = band ↔
      BandIssue.ofKind? band kind = some issue
  shown : ∀ channel : Channel, channel.bandOf? h.numBands = some band →
    raster.image.plane channel =
      if band ∈ raster.skipped.map BandIssue.band then List.replicate area 0xFF
      else (data.drop (place + 2)).take area

/-- What a walk met behind the header is what the raster was read from. -/
theorem readAt_of_stayed {kinds : List UInt8} {bands : Run (List BandIssue)} {band : Nat}
    (harea : h.HasArea area)
    (hs : Stayed (Channel.bandOf? h.numBands) area 0 ((Cursor.start data none).opened 61)
      kinds bands) (hband : band < kinds.length) :
    ReadAt data h area (finish h (headerTrace 0 h) bands)
      (assemble h bands.trace (issuesOf 0 kinds)) band
      (startOf area (issuesOf 0 kinds) band) := by
  have hopened : ((Cursor.start data none).opened 61).offset = 61 := rfl
  have hrest : ((Cursor.start data none).opened 61).rest = data.drop 61 := rfl
  have hplace := place_eq area 0 (Nat.le_of_lt hband)
  simp only [Nat.zero_add] at hplace
  have hstart : startOf area (issuesOf 0 kinds) band = 61 + place area kinds band := by
    rw [startOf, hplace, Nat.add_assoc]
  obtain ⟨hkind,hnodata⟩ := hs.opened band hband
  rw [Nat.zero_add, hopened, ← hstart] at hkind hnodata
  constructor
  · rw [finish, Trace.offsetOf?_append, offsetOf?_headerTrace 0 h rfl, hkind]
    rfl
  · rw [finish, Trace.offsetOf?_append, offsetOf?_headerTrace 0 h rfl, hnodata]
    rfl
  · refine ⟨kinds[band],?_,fun issue => ?_⟩
    · have hat := hs.kind band hband
      rwa [hrest, List.getElem?_drop, ← hstart] at hat
    · have hiff : issue ∈ issuesOf 0 kinds ∧ issue.band = 0 + band ↔ _ := mem_issuesOf_iff hband
      rwa [Nat.zero_add] at hiff
  · intro channel hchannel
    have hshown := hs.planes band hband channel (by rwa [Nat.zero_add])
      (Image.blank h.area.toNat)
    have hout : 0 + band ∈ (issuesOf 0 kinds).map BandIssue.band ↔ _ :=
      mem_bands_issuesOf_iff hband
    rw [Nat.zero_add] at hout
    rw [assemble, hshown, hrest, plane_blank, List.drop_drop, harea.area_eq, Int.toNat_natCast,
      hstart, Nat.add_assoc]
    cases hd : decodes kinds[band] with
    | true => rw [if_pos rfl, if_neg (by rw [hout, hd]; decide)]
    | false => rw [if_neg Bool.false_ne_true, if_pos (by rw [hout, hd])]

/-- A raster that was decoded without passing over records comes from a walk over the bands
that met a type byte for each. -/
theorem stayed_of_decode (hmode : s.skipUnsupportedPayload = false)
    (harea : (Header.ofBytes data).HasArea area) (hsmall : area < 2 ^ (60 : Nat))
    (hok : (decode s data).result = .ok raster) :
    ∃ (kinds : List UInt8) (bands : Run (List BandIssue)),
      kinds.length = (Header.ofBytes data).numBands.toNat ∧
      Stayed (Channel.bandOf? (Header.ofBytes data).numBands) area 0
        ((Cursor.start data none).opened 61) kinds bands ∧
      decode s data = finish (Header.ofBytes data) (headerTrace 0 (Header.ofBytes data)) bands ∧
      raster = assemble (Header.ofBytes data) bands.trace (issuesOf 0 kinds) := by
  obtain ⟨hsize,ha⟩ := accepted_of_decode hok
  have hn := numBands_of_decode hok
  have hrun := decode_accepted hsize ha
  rw [hmode] at hrun
  rw [hrun] at hok
  obtain ⟨issues,hissues,rfl⟩ := ok_of_finish hok
  obtain ⟨kinds,hlength,hs⟩ := readBands_stayed hn harea hsmall ⟨issues,hissues⟩
  rw [hs.result] at hissues
  injection hissues with hissues
  exact ⟨kinds,_,hlength,hs,hrun,by rw [hissues]⟩

/-- Decoding without passing over records. Whatever the bands are, two bytes and a byte for
each pixel suffice for each. Of every raster that comes out, all bands were visited; the
bands that were left out tell how far the input was consumed and where the bytes of every
band are, and those bytes tell which bands were left out. -/
theorem decode_staying (hmode : s.skipUnsupportedPayload = false)
    (hsize : data.length ≤ s.maxInputBytes)
    (hparse : (Header.parse.run (Cursor.start data none)).result = .ok h)
    (hn : h.numBands = 1 ∨ h.numBands = 3) :
    let area := (h.width * h.height).toNat
    let n := h.numBands.toNat
    (61 + n * (2 + area) ≤ data.length → ∃ raster, (decode s data).result = .ok raster) ∧
      ∀ raster, (decode s data).result = .ok raster →
        raster.skipped.length ≤ n ∧
        (decode s data).cursor.offset = 61 + 2 * n + area * (n - raster.skipped.length) ∧
        raster.image.HasSize area ∧
        ∀ band < n, ReadAt data h area (decode s data) raster band
          (startOf area raster.skipped band) := by
  obtain ⟨ha,rfl⟩ := accepted_of_parse hparse
  obtain ⟨area,harea,hsmall⟩ := Header.area_of_fits (Header.ofBytes_width_fits data)
    (Header.ofBytes_height_fits data)
  simp only [Header.toNat_area harea]
  constructor
  · intro hlen
    have henough : (Header.ofBytes data).numBands.toNat * (2 + area) ≤
        ((Cursor.start data none).opened 61).remaining := by
      rw [Cursor.opened_remaining]
      exact Nat.le_sub_of_add_le (by rwa [Nat.add_comm])
    obtain ⟨issues,hok⟩ := readBands_ok_of_le hn harea hsmall henough
    rw [← hmode] at hok
    exact ⟨_,decode_ok_of_readBands hsize ha hok⟩
  · intro raster hok
    have hproper : Proper (Header.ofBytes data) raster := by
      rcases decode_bands hsize ha hn with ⟨_,-,herr⟩ | ⟨_,hok',hproper⟩
      · rw [hok] at herr
        cases herr
      · rw [hok] at hok'
        cases hok'
        exact hproper
    have himage := hproper.size
    rw [Header.toNat_area harea] at himage
    obtain ⟨kinds,bands,hlength,hs,hrun,rfl⟩ := stayed_of_decode hmode harea hsmall hok
    have hcount := length_issuesOf_le 0 kinds
    have htotal := place_length area 0 kinds
    have hoffset : (decode s data).cursor.offset = 61 + place area kinds kinds.length := by
      rw [hrun]
      exact hs.offset
    rw [hoffset, ← hlength]
    refine ⟨hcount,?_,himage,fun band hband => ?_⟩
    · have hskipped : (assemble (Header.ofBytes data) bands.trace (issuesOf 0 kinds)).skipped =
          issuesOf 0 kinds := rfl
      have hless := Nat.mul_le_mul_left area hcount
      rw [hskipped, Nat.mul_sub]
      omega
    · rw [hrun]
      exact readAt_of_stayed harea hs hband

/-- Three records of a raster of one pixel. The first has two bytes for its nodata value and
for its sample, and what is left of it is misread as the records of the other bands. -/
def misread : List UInt8 :=
  onePixel ([5,0,0x84,9,4] ++ [4,8,77] ++ [4,1,2])

theorem decode_misread :
    ∃ raster, (decode .standard misread).result = .ok raster ∧
      (decode .standard misread).cursor.offset = 61 + 2 * 3 + 1 * (3 - raster.skipped.length) ∧
      raster.skipped = [.unsupportedPixelType 0 5,.offline 1] ∧
      raster.image.plane .blue = [8] := by
  obtain ⟨h,hparse⟩ : ∃ h, (Header.parse.run (Cursor.start misread none)).result = .ok h :=
    ⟨_,rfl⟩
  have hh : h = Header.ofBytes misread := (accepted_of_parse hparse).2
  subst hh
  obtain ⟨henough,htold⟩ := decode_staying (s := .standard) rfl (by decide) hparse
    (.inr (by decide))
  obtain ⟨raster,hok⟩ := henough (by decide)
  obtain ⟨-,hoffset,-,hread⟩ := htold raster hok
  have hskipped : raster.skipped = [.unsupportedPixelType 0 5,.offline 1] := by
    have hmap : (decode .standard misread).result.map Raster.skipped =
        .ok [.unsupportedPixelType 0 5,.offline 1] := rfl
    rw [hok] at hmap
    injection hmap
  have hblue := (hread 2 (by decide)).shown .blue rfl
  rw [hskipped] at hblue
  exact ⟨raster,hok,hoffset,hskipped,hblue⟩

end Raster

end RasterWkb
