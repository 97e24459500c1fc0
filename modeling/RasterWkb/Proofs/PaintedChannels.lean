import RasterWkb.Proofs.PaintingWalk
import RasterWkb.Proofs.SessionRuns

/-!
# Channels are painted whole

Reading the bands of a raster paints whole channels of an image and leaves the others as
they were, whatever the image holds and however the reading ends. The samples of a channel
are one block of the buffer; the blocks lie in the order of the bands and do not overlap.
-/
namespace RasterWkb

/-! ### The bytes of a channel -/

namespace Image
variable {width height row column : Nat} {data : List UInt8} {place : Nat}
variable {i before after : Image} {channel : Channel}

/-- The byte of a channel in the pixel of a row and a column. -/
def byte? (i : Image) (width : Nat) (channel : Channel) (row column : Nat) : Option UInt8 :=
  i.packed[4 * (row * width + column) + channel.position]?

/-- The channel has the same byte in every pixel of the two images. -/
def Keeps (width height : Nat) (before after : Image) (channel : Channel) : Prop :=
  ∀ row < height, ∀ column < width,
    after.byte? width channel row column = before.byte? width channel row column

/-- The channel has the bytes of the buffer from a place on, row by row. -/
def Shows (width height : Nat) (data : List UInt8) (place : Nat) (i : Image)
    (channel : Channel) : Prop :=
  place + height * width ≤ data.length ∧ ∀ row < height, ∀ column < width,
    i.byte? width channel row column = data[place + (row * width + column)]?

theorem pixel_lt (hrow : row < height) (hcolumn : column < width) :
    row * width + column < height * width := by
  have hrows : (row + 1) * width ≤ height * width := Nat.mul_le_mul_right width hrow
  rw [Nat.succ_mul] at hrows
  omega

theorem byte?_eq (h : i.HasSize (height * width)) (hrow : row < height) (hcolumn : column < width) :
    i.byte? width channel row column = (i.plane channel)[row * width + column]? :=
  getElem?_packed h channel (pixel_lt hrow hcolumn)

theorem keeps_of_plane (hbefore : before.HasSize (height * width))
    (hafter : after.HasSize (height * width)) (h : after.plane channel = before.plane channel) :
    Keeps width height before after channel := by
  intro row hrow column hcolumn
  rw [byte?_eq hafter hrow hcolumn, byte?_eq hbefore hrow hcolumn, h]

theorem shows_of_plane (hi : i.HasSize (height * width))
    (hfits : place + height * width ≤ data.length)
    (h : i.plane channel = (data.drop place).take (height * width)) :
    Shows width height data place i channel := by
  refine ⟨hfits,fun row hrow column hcolumn => ?_⟩
  rw [byte?_eq hi hrow hcolumn, h, List.getElem?_take_of_lt (pixel_lt hrow hcolumn),
    List.getElem?_drop]

end Image

/-! ### Images of sessions -/

namespace Session
variable {data : List UInt8} {width height : Nat} {s : Session} {h : Header} {passing : Bool}

theorem advance_grayscale (s : Session) (h : Header) (passing : Bool) :
    s.advance (.grayscale h passing) =
      let r := (BandStream.grayscale h passing).run s.cursor
      ⟨⟨r.result.map .issues, r.cursor, r.trace⟩, r.cursor, r.trace.paintOn s.image⟩ := by
  rw [advance, Step.reading, Reading.run_bind_pure]
  rfl

theorem advance_rgb (s : Session) (h : Header) (passing : Bool) :
    s.advance (.rgb h passing) =
      let r := (BandStream.rgb h passing).run s.cursor
      ⟨⟨r.result.map .issues, r.cursor, r.trace⟩, r.cursor, r.trace.paintOn s.image⟩ := by
  rw [advance, Step.reading, Reading.run_bind_pure]
  rfl

/-- What reading an only band did to the image of a session. -/
inductive GrayPainted (data : List UInt8) (width height : Nat) (s : Session) (o : StepOutcome) :
    Prop
  | broken {fault : Fault} (hresult : o.run.result = .error fault)
      (himage : o.session.image = s.image)
  | leftOut {issue : BandIssue} (hresult : o.run.result = .ok (.issues [issue]))
      (himage : o.session.image = s.image)
  | painted (hresult : o.run.result = .ok (.issues []))
      (hshows : ∀ channel, channel ≠ .alpha →
        o.session.image.Shows width height data (s.cursor.offset + 2) channel)
      (hkeeps : Image.Keeps width height s.image o.session.image .alpha)

/-- What reading a band into each channel does to the image of a session. A trace tells the
places of type bytes and of samples. -/
structure RgbPainted (data : List UInt8) (width height : Nat) (s : Session) (h : Header)
    (passing : Bool) (o : StepOutcome) : Prop where
  alpha : Image.Keeps width height s.image o.session.image .alpha
  /-- Each channel is left as it was, or it shows one block. -/
  whole : ∀ channel, Image.Keeps width height s.image o.session.image channel ∨
    ∃ place, o.run.trace.offsetOf? (.samples channel.position) = some place ∧
      o.session.image.Shows width height data place channel
  /-- Channels that no band belongs to are left as they were. -/
  beyond : ∀ channel : Channel, h.numBands ≤ channel.position →
    Image.Keeps width height s.image o.session.image channel
  /-- So are those of bands that are never reached. -/
  unreached : ∀ channel : Channel,
    o.run.trace.offsetOf? (.bandType channel.position) = none →
      Image.Keeps width height s.image o.session.image channel
  /-- So are those of bands that are reported as left out. -/
  leftOut : ∀ issues, o.run.result = .ok (.issues issues) → ∀ issue ∈ issues,
    ∀ channel : Channel, channel.position = issue.band →
      Image.Keeps width height s.image o.session.image channel
  /-- If no fault occurs, every band that is reached and can be decoded is painted. -/
  complete : ∀ issues, o.run.result = .ok (.issues issues) → ∀ (channel : Channel) place kind,
    o.run.trace.offsetOf? (.bandType channel.position) = some place → data[place]? = some kind →
      decodes kind = true → o.session.image.Shows width height data (place + 2) channel
  /-- A fault comes up in some band. The bands in front of it can be read without it, and those
  among them that can be decoded are painted. -/
  broken : ∀ fault, o.run.result = .error fault → ∃ k : Nat, k < h.numBands ∧
    (∃ issues, (s.advance (.rgb { h with numBands := k } passing)).run.result =
      .ok (.issues issues)) ∧
    (s.advance (.rgb { h with numBands := k + 1 } passing)).run.result = .error fault ∧
    (∀ channel : Channel, k ≤ channel.position →
      Image.Keeps width height s.image o.session.image channel) ∧
    ∀ channel : Channel, channel.position < k → ∃ place kind,
      o.run.trace.offsetOf? (.bandType channel.position) = some place ∧
      data[place]? = some kind ∧
      (decodes kind = true → o.session.image.Shows width height data (place + 2) channel) ∧
      (decodes kind = false → Image.Keeps width height s.image o.session.image channel)
  /-- The blocks lie between where the cursor was and where it is. -/
  within : ∀ band place, o.run.trace.offsetOf? (.samples band) = some place →
    s.cursor.offset + 2 ≤ place ∧ place + height * width ≤ o.session.cursor.offset
  /-- They lie one behind the other, in the order of their bands. -/
  apart : ∀ band other place place', band < other →
    o.run.trace.offsetOf? (.samples band) = some place →
    o.run.trace.offsetOf? (.samples other) = some place' → place + height * width ≤ place'

theorem hasArea (hwidth : h.width = width) (hheight : h.height = height) :
    h.HasArea (height * width) := by
  refine ⟨by omega,by omega,?_⟩
  rw [Header.area, hwidth, hheight, Nat.mul_comm]
  exact (Int.natCast_mul width height).symm

theorem grayPainted (hwidth : h.width = width) (hheight : h.height = height)
    (hsize : s.image.HasSize (height * width)) (hc : s.cursor.Within data) :
    GrayPainted data width height s (s.advance (.grayscale h passing)) := by
  have hv : BandStream.GrayVisited data (height * width) s.cursor
      ((BandStream.grayscale h passing).run s.cursor) :=
    BandStream.grayVisited hc (hasArea hwidth hheight)
  rw [advance_grayscale]
  generalize (BandStream.grayscale h passing).run s.cursor = r at hv
  cases hv with
  | broken ht => exact .broken rfl (ht.paintOn s.image)
  | spared ht => exact .leftOut rfl (ht.paintOn s.image)
  | @filled _ t hfits hshows hkeeps =>
      have hafter : (t.paintOn s.image).HasSize (height * width) := by
        intro channel
        by_cases hne : channel = .alpha
        · rw [hne, hkeeps, hsize]
        · rw [hshows channel hne, List.length_take, List.length_drop]
          omega
      refine .painted rfl (fun channel hne => ?_) ?_
      · exact Image.shows_of_plane hafter hfits (hshows channel hne s.image)
      · exact Image.keeps_of_plane hsize hafter (hkeeps s.image)

/-- A band of a channel that the walk has finished shows its block or is as it was. -/
theorem finished_cases {t : Trace} {channel : Channel}
    (hfinished : BandStream.Finished data (height * width) t channel)
    (hsize : s.image.HasSize (height * width))
    (hafter : (t.paintOn s.image).HasSize (height * width)) :
    ∃ place kind, t.offsetOf? (.bandType channel.position) = some place ∧
      data[place]? = some kind ∧
      (decodes kind = true → t.offsetOf? (.samples channel.position) = some (place + 2) ∧
        (t.paintOn s.image).Shows width height data (place + 2) channel) ∧
      (decodes kind = false → Image.Keeps width height s.image (t.paintOn s.image) channel) := by
  cases hfinished with
  | @filled place kind hplace hkind hdecodes hsamples hfits hshows =>
      refine ⟨place,kind,hplace,hkind,fun _ => ⟨hsamples,?_⟩,fun hno => ?_⟩
      · exact Image.shows_of_plane hafter hfits (hshows s.image)
      · rw [hdecodes] at hno
        cases hno
  | @spared place kind hplace hkind hdecodes hkeeps =>
      refine ⟨place,kind,hplace,hkind,fun hyes => ?_,fun _ => ?_⟩
      · rw [hdecodes] at hyes
        cases hyes
      · exact Image.keeps_of_plane hsize hafter (hkeeps s.image)

/-- A fault of a step that reads bands is one of the bands, and so is an answer. -/
theorem error_of_map {result : Except Fault (List BandIssue)} {fault : Fault}
    (herr : result.map StepValue.issues = .error fault) : result = .error fault := by
  cases result with
  | error other =>
      cases herr
      rfl
  | ok issues => cases herr

theorem ok_of_map {result : Except Fault (List BandIssue)} {issues : List BandIssue}
    (hok : result.map StepValue.issues = .ok (.issues issues)) : result = .ok issues := by
  cases result with
  | error fault => cases hok
  | ok others =>
      cases hok
      rfl

theorem rgbPainted (hwidth : h.width = width) (hheight : h.height = height)
    (hsize : s.image.HasSize (height * width)) (hc : s.cursor.Within data)
    (hbands : h.numBands ≤ 3) :
    RgbPainted data width height s h passing (s.advance (.rgb h passing)) := by
  obtain ⟨done,hdone,hpaints,hbreaks⟩ := BandStream.bandsFrom_paints passing
    (hasArea hwidth hheight) h.numBands.toNat s.cursor hc 0 (by omega) none
  have hcounted : ∀ n : Nat, (s.advance (.rgb { h with numBands := n } passing)).run.result =
      ((BandStream.bandsFrom h passing none 0 n).run s.cursor).result.map .issues := by
    intro n
    rw [advance_rgb, BandStream.rgb_numBands]
  have hwhole : BandStream.rgb h passing =
      BandStream.bandsFrom h passing none 0 h.numBands.toNat := rfl
  rw [advance_rgb, hwhole]
  generalize hr : (BandStream.bandsFrom h passing none 0 h.numBands.toNat).run s.cursor = r at *
  have hafter := hpaints.hasSize hsize
  have hkept : ∀ channel : Channel, done ≤ channel.position →
      Image.Keeps width height s.image (r.trace.paintOn s.image) channel := fun channel hout =>
    Image.keeps_of_plane hsize hafter (hpaints.kept channel (.inr (by omega)) s.image)
  have hfinished := fun (channel : Channel) (hin : channel.position < done) =>
    finished_cases (hpaints.finished channel (Nat.zero_le _) (by omega)) hsize hafter
  constructor
  case alpha => exact hkept .alpha (by simp only [Channel.position]; omega)
  case whole =>
    intro channel
    rcases Nat.lt_or_ge channel.position done with hin | hout
    · obtain ⟨place,kind,hplace,hkind,hshows,hkeeps⟩ := hfinished channel hin
      cases hdecodes : decodes kind with
      | false => exact .inl (hkeeps hdecodes)
      | true => exact .inr ⟨place + 2,hshows hdecodes⟩
    · exact .inl (hkept channel hout)
  case beyond => exact fun channel hout => hkept channel (by omega)
  case unreached =>
    intro channel hnone
    rcases Nat.lt_or_ge channel.position done with hin | hout
    · obtain ⟨place,kind,hplace,-⟩ := hfinished channel hin
      rw [hnone] at hplace
      cases hplace
    · exact hkept channel hout
  case leftOut =>
    intro issues hok issue hissue channel hchannel
    obtain ⟨-,hkeeps⟩ := hpaints.leftOut issues (ok_of_map hok) issue hissue
    exact Image.keeps_of_plane hsize hafter (hkeeps channel hchannel s.image)
  case complete =>
    intro issues hok channel place kind hplace hkind hdecodes
    rcases Nat.lt_or_ge channel.position done with hin | hout
    · obtain ⟨place',kind',hplace',hkind',hshows,-⟩ := hfinished channel hin
      obtain rfl : place' = place := Option.some.inj (hplace'.symm.trans hplace)
      obtain rfl : kind' = kind := Option.some.inj (hkind'.symm.trans hkind)
      exact (hshows hdecodes).2
    · rw [hpaints.reached issues (ok_of_map hok) _ (by omega)] at hplace
      cases hplace
  case broken =>
    intro fault herr
    have herr' := error_of_map herr
    rw [← hr] at herr'
    obtain ⟨hlt,⟨issues,hok⟩,hnext⟩ := hbreaks fault herr'
    refine ⟨done,by omega,⟨issues,?_⟩,?_,hkept,fun channel hin => ?_⟩
    · rw [hcounted, hok]
      rfl
    · have hsucc := hcounted (done + 1)
      rw [hnext] at hsucc
      exact hsucc
    · obtain ⟨place,kind,hplace,hkind,hshows,hkeeps⟩ := hfinished channel hin
      exact ⟨place,kind,hplace,hkind,fun hdecodes => (hshows hdecodes).2,hkeeps⟩
  case within => exact hpaints.within
  case apart => exact hpaints.apart

/-- Reading bands from anywhere in a buffer onto any image paints whole channels or nothing. -/
theorem advance_paints_whole (passing : Bool) (hwidth : h.width = width)
    (hheight : h.height = height) (hsize : s.image.HasSize (height * width))
    (hc : s.cursor.Within data) :
    GrayPainted data width height s (s.advance (.grayscale h passing)) ∧
      (h.numBands ≤ 3 →
        RgbPainted data width height s h passing (s.advance (.rgb h passing))) :=
  ⟨grayPainted hwidth hheight hsize hc,rgbPainted hwidth hheight hsize hc⟩

/-- A byte in front of three bands of two pixels. The second band is offline, and the third
lacks a sample. -/
def torn : List UInt8 :=
  [0xFF] ++ [4, 0, 11, 12] ++ [0x84, 0] ++ [4, 0, 13]

def tornHeader : Header :=
  { Header.ofBytes [] with numBands := 3, width := 2, height := 1 }

theorem advance_paints_torn :
    let s : Session := ⟨⟨1,torn.drop 1,none⟩,.filled 2 1 2 3 4⟩
    GrayPainted torn 2 1 s (s.advance (.grayscale tornHeader true)) ∧
      RgbPainted torn 2 1 s tornHeader false (s.advance (.rgb tornHeader false)) ∧
      (s.advance (.rgb tornHeader false)).run.result.toOption = none ∧
      (s.advance (.rgb tornHeader false)).session.image = ⟨[11, 12],[2, 2],[3, 3],[4, 4]⟩ := by
  intro s
  have hsize : s.image.HasSize (1 * 2) := Image.hasSize_filled 2 1 2 3 4
  have hwithin : s.cursor.Within torn := ⟨by decide,rfl⟩
  have hboth := fun passing => advance_paints_whole (h := tornHeader) passing rfl rfl hsize hwithin
  exact ⟨(hboth true).1,(hboth false).2 (by decide),by decide +kernel,by decide +kernel⟩

end Session

end RasterWkb
