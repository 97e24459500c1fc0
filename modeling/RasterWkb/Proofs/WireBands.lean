import RasterWkb.Proofs.BandWalk

/-!
# Streams of whole band records

A whole record is a type byte, a nodata value and the samples, the last two in
the width of the pixel type. The walk over a stream of such records is compared
with the list of records: what it leaves out, what it paints and how far it
gets. Records of any widths may stand in the stream if records are passed over;
otherwise all of them have to be decodable. What follows the stream is arbitrary.
-/
namespace RasterWkb

/-- A record stored in the raster, of a pixel type that has samples. -/
structure WireBand (area : Nat) where
  kind : UInt8
  type : PixelType
  online : (Descriptor.ofByte kind).isOffline = false
  typed : (Descriptor.ofByte kind).pixelType? = some type
  sized : 0 < type.byteSize
  nodata : List UInt8
  samples : List UInt8
  length_nodata : nodata.length = type.byteSize
  length_samples : samples.length = area * type.byteSize

namespace WireBand
variable {area : Nat}

def bytes (r : WireBand area) : List UInt8 :=
  r.kind :: (r.nodata ++ r.samples)

/-- The bytes of records, one behind the other. -/
def stream (rs : List (WireBand area)) : List UInt8 :=
  rs.flatMap bytes

/-- Why the record is left out as the band of the index, if it is. -/
def issues (index : Nat) (r : WireBand area) : List BandIssue :=
  if r.type.isSupported then [] else [.unsupportedPixelType index r.type.code]

/-- Why records are left out, the first of which has the index. -/
def issuesFrom (index : Nat) : List (WireBand area) → List BandIssue
  | [] => []
  | r :: rs => issues index r ++ issuesFrom (index + 1) rs

/-- The plane that the record leads to. -/
def plane (r : WireBand area) : List UInt8 :=
  if r.type.isSupported then r.samples else List.replicate area 0xFF

/-- An image after the record has been dealt with as the band of the index. -/
def paint (index : Nat) (r : WireBand area) (i : Image) : Image :=
  match Channel.ofBand? index with
  | some channel => if r.type.isSupported then i.paint channel r.samples else i
  | none => i

def paintFrom (index : Nat) : List (WireBand area) → Image → Image
  | [], i => i
  | r :: rs, i => paintFrom (index + 1) rs (paint index r i)

theorem length_bytes (r : WireBand area) :
    r.bytes.length = 1 + r.type.byteSize + area * r.type.byteSize := by
  simp only [bytes, List.length_cons, List.length_append, r.length_nodata, r.length_samples]
  omega

@[simp] theorem stream_nil : stream ([] : List (WireBand area)) = [] := rfl

@[simp] theorem stream_cons (r : WireBand area) (rs : List (WireBand area)) :
    stream (r :: rs) = r.bytes ++ stream rs := by
  simp [stream]

theorem byteSize_of_supported {t : PixelType} (h : t.isSupported = true) : t.byteSize = 1 := by
  cases t <;> first | rfl | cases h

theorem code_eq (r : WireBand area) : (Descriptor.ofByte r.kind).code = r.type.code :=
  (PixelType.code_of_ofCode? r.typed).symm

theorem issue?_eq (r : WireBand area) (index : Nat) :
    BandStream.issue? index (.ofByte r.kind) =
      if r.type.isSupported then none else some (.unsupportedPixelType index r.type.code) := by
  have hs : (Descriptor.ofByte r.kind).isSupported = r.type.isSupported := by
    rw [Descriptor.isSupported, r.typed]
    rfl
  rw [BandStream.issue?, r.online, hs, r.code_eq]
  rfl

theorem issue?_of_supported {r : WireBand area} (h : r.type.isSupported = true) (index : Nat) :
    BandStream.issue? index (.ofByte r.kind) = none := by
  rw [r.issue?_eq, if_pos h]

theorem issue?_of_unsupported {r : WireBand area} (h : ¬r.type.isSupported = true) (index : Nat) :
    BandStream.issue? index (.ofByte r.kind) =
      some (.unsupportedPixelType index r.type.code) := by
  rw [r.issue?_eq, if_neg h]

/-- A record opens with its type byte and a nodata byte, and the type tells how many
bytes stand behind them. -/
theorem opens (r : WireBand area) (tail : List UInt8) :
    ∃ (nodata : UInt8) (rest : List UInt8) (n : Nat), r.bytes ++ tail = r.kind :: nodata :: rest ∧
      (Descriptor.ofByte r.kind).tail? area = some (n : Int) ∧ n ≤ rest.length ∧
        r.bytes.length = 2 + n := by
  have hsized := r.sized
  obtain ⟨nodata,others,hnodata⟩ : ∃ nodata others, r.nodata = nodata :: others := by
    apply List.exists_cons_of_length_pos
    rw [r.length_nodata]
    exact hsized
  have hothers : others.length + 1 = r.type.byteSize := by
    rw [← r.length_nodata, hnodata]
    rfl
  refine ⟨nodata,others ++ r.samples ++ tail,r.type.byteSize - 1 + area * r.type.byteSize,
    ?_,Descriptor.tail?_of_typed r.online r.typed hsized area,?_,?_⟩
  · simp only [bytes, hnodata, List.cons_append]
  · rw [List.length_append, List.length_append, r.length_samples]
    omega
  · rw [r.length_bytes]
    omega

/-- A supported record has one nodata byte and the samples right behind it. -/
theorem opens_supported {r : WireBand area} (h : r.type.isSupported = true) (tail : List UInt8) :
    ∃ (nodata : UInt8) (rest : List UInt8), r.bytes ++ tail = r.kind :: nodata :: rest ∧
      rest.take area = r.samples ∧ area ≤ rest.length ∧ r.bytes.length = 2 + area := by
  have hone := byteSize_of_supported h
  have hsamples : r.samples.length = area := by rw [r.length_samples, hone, Nat.mul_one]
  obtain ⟨nodata,hnodata⟩ := List.length_eq_one_iff.mp (r.length_nodata.trans hone)
  refine ⟨nodata,r.samples ++ tail,?_,List.take_left' hsamples,?_,?_⟩
  · simp only [bytes, hnodata, List.cons_append, List.nil_append]
  · rw [List.length_append]
    omega
  · rw [r.length_bytes, hone]
    omega

end WireBand

namespace BandStream
variable {area : Nat} {h : Header} {passing : Bool} {c : Cursor} {index : Nat}

/-- The visit of a whole record ends at its end. -/
theorem run_bandsFrom_wireBand (r : WireBand area) (harea : h.HasArea area)
    (hmode : passing = true ∨ r.type.isSupported = true) (hindex : index < 4)
    (first : Option UInt8) (left : Nat) {tail : List UInt8} (hrest : c.rest = r.bytes ++ tail) :
    ∃ first' t, (∀ i, Trace.paintOn t i = r.paint index i) ∧
      (bandsFrom h passing first index (left + 1)).run c =
        resume (r.issues index) t
          ((bandsFrom h passing first' (index + 1) left).run (c.advance r.bytes.length)) := by
  obtain ⟨channel,hchannel⟩ := channel_of_lt hindex
  by_cases hs : r.type.isSupported = true
  · obtain ⟨nodata,rest,hopens,htake,henough,hlen⟩ := WireBand.opens_supported hs tail
    rw [hopens] at hrest
    have hvisit : (visit h passing first index).run c = _ :=
      run_visit_filled hrest harea (WireBand.issue?_of_supported hs index) hchannel henough
    refine ⟨some (first.getD nodata),((visit h passing first index).run c).trace,?_,?_⟩
    · intro i
      rw [hvisit, WireBand.paint, hchannel]
      simp only [Trace.paintOn_append, paintOn_opening, paintOn_differing, paintOn_filling,
        htake, if_pos hs]
    · rw [run_bandsFrom_filled hvisit, hvisit, hlen, WireBand.issues, if_pos hs]
  · obtain ⟨nodata,rest,n,hopens,htail,henough,hlen⟩ := r.opens tail
    rw [hopens] at hrest
    rw [← harea.area_eq] at htail
    obtain rfl : passing = true := hmode.resolve_right hs
    have hvisit : (visit h true first index).run c = _ :=
      run_visit_passed hrest (WireBand.issue?_of_unsupported hs index) htail henough
    refine ⟨some (first.getD nodata),((visit h true first index).run c).trace,?_,?_⟩
    · intro i
      rw [hvisit, WireBand.paint, hchannel]
      simp only [Trace.paintOn_append, paintOn_opening, if_neg hs]
      rfl
    · rw [run_bandsFrom_leftOut hvisit, hvisit, hlen, WireBand.issues, if_neg hs]

/-- The walk over whole records visits each of them and goes on at their end. -/
theorem run_bandsFrom_stream (rs : List (WireBand area)) (harea : h.HasArea area)
    (hmode : passing = true ∨ ∀ r ∈ rs, r.type.isSupported = true) (left : Nat) (c : Cursor)
    (index : Nat) (hindex : index + rs.length ≤ 4) (first : Option UInt8) {tail : List UInt8}
    (hrest : c.rest = WireBand.stream rs ++ tail) :
    ∃ first' t, (∀ i, Trace.paintOn t i = WireBand.paintFrom index rs i) ∧
      (bandsFrom h passing first index (rs.length + left)).run c =
        resume (WireBand.issuesFrom index rs) t
          ((bandsFrom h passing first' (index + rs.length) left).run
            (c.advance (WireBand.stream rs).length)) := by
  induction rs generalizing c index first with
  | nil =>
      refine ⟨first,[],fun _ => rfl,?_⟩
      simp only [List.length_nil, Nat.zero_add, Nat.add_zero, WireBand.stream_nil,
        List.length_nil, Cursor.advance_zero, WireBand.issuesFrom, resume_nil]
  | cons r rs ih =>
      rw [WireBand.stream_cons, List.append_assoc] at hrest
      rw [List.length_cons] at hindex
      have hmode₁ : passing = true ∨ r.type.isSupported = true :=
        hmode.imp_right fun hall => hall r List.mem_cons_self
      have hmode₂ : passing = true ∨ ∀ r ∈ rs, r.type.isSupported = true :=
        hmode.imp_right fun hall r' hr' => hall r' (List.mem_cons_of_mem r hr')
      have hnext : (c.advance r.bytes.length).rest = WireBand.stream rs ++ tail := by
        rw [Cursor.rest_advance, hrest, List.drop_left]
      obtain ⟨first₁,t₁,hpaint₁,hrun₁⟩ := run_bandsFrom_wireBand r harea hmode₁
        (by omega : index < 4) first (rs.length + left) hrest
      obtain ⟨first₂,t₂,hpaint₂,hrun₂⟩ := ih hmode₂ (c.advance r.bytes.length) (index + 1)
        (by omega) first₁ hnext
      refine ⟨first₂,t₁ ++ t₂,?_,?_⟩
      · intro i
        rw [Trace.paintOn_append, hpaint₁, hpaint₂]
        rfl
      · have hsize : (r :: rs).length + left = rs.length + left + 1 := by
          rw [List.length_cons]
          omega
        have hplace : index + 1 + rs.length = index + (r :: rs).length := by
          rw [List.length_cons]
          omega
        rw [hsize, hrun₁, hrun₂, resume_resume, Cursor.advance_advance, hplace,
          WireBand.stream_cons, List.length_append]
        rfl

end BandStream

end RasterWkb
