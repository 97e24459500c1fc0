import RasterWkb.Proofs.WholeDoubles

/-!
# The bytes that samples become

The members of a plain list are first brought to a common kind, which can turn
integers into doubles. What is written is nevertheless the byte of each member as
it was given: a kind that changes members keeps what they are worth, except where
the range check refuses them.
-/
namespace RasterWkb

/-- The integer of a sample, its fraction dropped. -/
def Sample.truncated : Sample → Int
  | .flag b => if b then 1 else 0
  | .integer n => n
  | .real d => d.truncate

theorem Sample.Is.truncated_eq {s : Sample} {n : Int} (h : s.Is n) : s.truncated = n := by
  cases s with
  | flag b => exact (flag_is b).unique h
  | integer m => exact (integer_is m).unique h
  | real d => exact (is_real_iff.mp h).2.2

/-- The samples as they are given: the members of a plain list, the elements of an array. -/
def Samples.given : Samples → List Sample
  | .list members => members
  | .array kind members => members.map kind.hold

/-- The byte that is written for a sample. -/
def BandRecord.sampleByte (s : Sample) : UInt8 :=
  wrap s.truncated

namespace ElementKind

/-- Kinds that members of plain lists can have. -/
def OfMembers : ElementKind → Prop
  | real p => p = .double
  | _ => True

/-- The sample can be among the members of a list of the kind. -/
def Takes : ElementKind → Sample → Prop
  | flag, .flag _ => True
  | flag, _ => False
  | signed, .real _ | unsigned, .real _ => False
  | _, _ => True

theorem ofMembers_ofSample (s : Sample) : (ofSample s).OfMembers := by
  cases s with
  | flag b => trivial
  | integer n =>
      simp only [ofSample]
      split
      · trivial
      · split <;> trivial
  | real d => rfl

theorem takes_ofSample (s : Sample) : (ofSample s).Takes s := by
  cases s with
  | flag b => trivial
  | integer n =>
      simp only [ofSample]
      split
      · trivial
      · split <;> trivial
  | real d => trivial

theorem OfMembers.join {k l : ElementKind} (hk : k.OfMembers) (hl : l.OfMembers) :
    (k.join l).OfMembers := by
  cases k <;> cases l <;> simp_all [ElementKind.join, OfMembers]

theorem takes_join_real (p q : Precision) (s : Sample) :
    ((real p).join (real q)).Takes s := by
  by_cases h : p = q
  · simp only [ElementKind.join, if_pos h, Takes]
  · simp only [ElementKind.join, if_neg h, Takes]

theorem Takes.join_left {k l : ElementKind} {s : Sample} (h : k.Takes s) :
    (k.join l).Takes s := by
  cases k <;> cases l <;>
    first
    | exact takes_join_real _ _ s
    | cases s <;> simp_all [ElementKind.join, Takes]

theorem Takes.join_right {k l : ElementKind} {s : Sample} (h : l.Takes s) :
    (k.join l).Takes s := by
  cases k <;> cases l <;>
    first
    | exact takes_join_real _ _ s
    | cases s <;> simp_all [ElementKind.join, Takes]

theorem foldl_join {k : ElementKind} (hk : k.OfMembers) (ss : List Sample) :
    (ss.foldl (fun kind s => kind.join (ofSample s)) k).OfMembers ∧
      ∀ s, k.Takes s ∨ s ∈ ss → (ss.foldl (fun kind s => kind.join (ofSample s)) k).Takes s := by
  induction ss generalizing k with
  | nil =>
      constructor
      · exact hk
      · intro s hs
        exact hs.resolve_right List.not_mem_nil
  | cons u us ih =>
      obtain ⟨hof,htakes⟩ := ih (hk.join (ofMembers_ofSample u))
      constructor
      · exact hof
      · intro s hs
        apply htakes
        rcases hs with hs | hs
        · exact .inl hs.join_left
        · rcases List.mem_cons.mp hs with rfl | hs
          · exact .inl (takes_ofSample s).join_right
          · exact .inr hs

/-- The kind of a list takes all of its members. -/
theorem ofList_spec (members : List Sample) :
    (ofList members).OfMembers ∧ ∀ s ∈ members, (ofList members).Takes s := by
  cases members with
  | nil => exact ⟨rfl,fun s hs => absurd hs List.not_mem_nil⟩
  | cons s ss =>
      obtain ⟨hof,htakes⟩ := foldl_join (ofMembers_ofSample s) ss
      constructor
      · exact hof
      · intro u hu
        apply htakes
        rcases List.mem_cons.mp hu with rfl | hu
        · exact .inl (takes_ofSample u)
        · exact .inr hu

/-- What the form of the list's kind makes of a member: the member itself, or the integer that
it is worth, which may be rounded to a double. -/
theorem hold_cases {k : ElementKind} {s : Sample} (hk : k.OfMembers) (hs : k.Takes s) :
    k.hold s = s ∨ ∃ n, s.Is n ∧
      (k.hold s = .integer n ∨ (∃ p, k = .real p) ∧ k.hold s = .real (.ofInt n)) := by
  cases k with
  | flag =>
      cases s with
      | flag b => exact .inl rfl
      | integer n => exact absurd hs id
      | real d => exact absurd hs id
  | signed | unsigned =>
      cases s with
      | flag b => exact .inr ⟨_,Sample.flag_is b,.inl rfl⟩
      | integer n => exact .inl rfl
      | real d => exact absurd hs id
  | real p =>
      have hp : p = .double := hk
      subst hp
      cases s with
      | flag b => exact .inr ⟨_,Sample.flag_is b,.inr ⟨⟨_,rfl⟩,rfl⟩⟩
      | integer n => exact .inr ⟨n,Sample.integer_is n,.inr ⟨⟨_,rfl⟩,rfl⟩⟩
      | real d => exact .inl rfl
  | mixed => exact .inl rfl

/-- A member keeps its integer in the form of the list's kind, unless its double is out
of range. -/
theorem truncated_hold {k : ElementKind} {s : Sample} (hk : k.OfMembers) (hs : k.Takes s)
    (hrange : (∃ p, k = .real p) → (k.hold s).InRange) :
    (k.hold s).truncated = s.truncated := by
  rcases hold_cases hk hs with hheld | ⟨n,hn,hheld | ⟨hreal,hheld⟩⟩
  · rw [hheld]
  · rw [hheld, hn.truncated_eq]
    rfl
  · have hin := hrange hreal
    rw [hheld] at hin ⊢
    rw [(Double.is_ofInt (Sample.natAbs_lt_of_inRange hin)).truncated_eq, hn.truncated_eq]

end ElementKind

namespace BandRecord

theorem integerOf_eq {s : Sample} {n : Int} (h : integerOf s = .ok n) : n = s.truncated := by
  have machine : ∀ m, machineInteger m = .ok n → n = m := by
    intro m hm
    unfold machineInteger at hm
    split at hm
    · cases hm
      rfl
    · cases hm
  cases s with
  | flag b =>
      cases h
      rfl
  | integer m => exact machine m h
  | real d =>
      simp only [integerOf] at h
      split at h
      · cases h
      · split at h
        · cases h
        · exact machine d.truncate h

theorem mapM_integerOf_eq {elements : List Sample} {integers : List Int}
    (h : elements.mapM integerOf = .ok integers) : integers = elements.map Sample.truncated := by
  induction elements generalizing integers with
  | nil =>
      cases h
      rfl
  | cons s ss ih =>
      rw [List.mapM_cons] at h
      cases hs : integerOf s with
      | error fault =>
          rw [hs] at h
          cases h
      | ok n =>
          cases hss : ss.mapM integerOf with
          | error fault =>
              rw [hs, hss] at h
              cases h
          | ok ns =>
              rw [hs, hss] at h
              cases h
              rw [integerOf_eq hs, ih hss]
              rfl

/-- What has been checked when samples are turned into bytes. -/
structure Checked (samples : Samples) (bytes : List UInt8) : Prop where
  whole : samples.isReal = true → ∀ s ∈ samples.elements, s.isWhole = true
  range : checkRange samples.kind samples.elements = .ok ()
  bytes_eq : bytes = samples.elements.map sampleByte

theorem checked_of_payload {samples : Samples} {bytes : List UInt8}
    (h : payload samples = .ok bytes) : Checked samples bytes := by
  unfold payload at h
  simp only at h
  split at h
  · cases h
  · next hcond =>
      cases hrange : checkRange samples.kind samples.elements with
      | error fault =>
          rw [hrange] at h
          cases h
      | ok u =>
          cases hints : samples.elements.mapM integerOf with
          | error fault =>
              rw [hrange, hints] at h
              cases h
          | ok integers =>
              rw [hrange, hints] at h
              cases h
              constructor
              · intro hreal s hs
                rw [hreal, Bool.true_and, Bool.not_eq_true', Bool.not_eq_false,
                  List.all_eq_true] at hcond
                exact hcond s hs
              · exact hrange
              · rw [mapM_integerOf_eq hints, List.map_map]
                rfl

theorem exact_ne_nan_of_isWhole {s : Sample} (h : s.isWhole = true) : s.exact ≠ .nan := by
  cases s with
  | flag b => simp [Sample.exact, Exact.ofInt]
  | integer n => simp [Sample.exact, Exact.ofInt]
  | real d =>
      rw [ne_eq, Sample.exact_real_eq_nan]
      intro hnan
      rw [Sample.isWhole, Double.isWhole, if_pos hnan] at h
      cases h

/-- The bytes of samples are those of the samples as they are given. -/
theorem payload_eq {samples : Samples} {bytes : List UInt8} (h : payload samples = .ok bytes) :
    bytes = samples.given.map sampleByte := by
  obtain ⟨hwhole,hrange,hbytes⟩ := checked_of_payload h
  cases samples with
  | array kind members => exact hbytes
  | list members =>
      obtain ⟨hof,htakes⟩ := ElementKind.ofList_spec members
      rw [hbytes, Samples.elements, List.map_map]
      apply List.map_congr_left
      intro s hs
      have hheld : ((ElementKind.ofList members).hold s).truncated = s.truncated := by
        apply ElementKind.truncated_hold hof (htakes s hs)
        rintro ⟨p,hp⟩
        have hreal : (Samples.list members).isReal = true := by
          simp only [Samples.isReal, Samples.kind, hp]
        exact inRange_of_checkRange (fun u hu => exact_ne_nan_of_isWhole (hwhole hreal u hu)) hrange
          _ (List.mem_map_of_mem hs)
      exact congrArg wrap hheld

end BandRecord

end RasterWkb
