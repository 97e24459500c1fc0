import RasterWkb.Settings.Session
import RasterWkb.Proofs.Histories

/-!
# Which settings a session uses

A session of uses, loads and changes of the environment is told here from its list of
steps alone. The settings in use are those of the environment in front of one step: the
first use behind the last clearing at which the environment was accepted. A use that
finds nothing kept and an environment that is not accepted is refused and changes
nothing. Settings objects are told apart by their serial numbers, each of which is given
once, so an object that turns up again is the one that was made.

What a step can do to the store is said once, as a relation with a constructor for each
case. One invariant follows the store from step to step.
-/
namespace RasterWkb

/-- Whether a step asks for settings without giving any. -/
def SettingsStep.uses : SettingsStep → Bool
  | get | decode _ => true
  | _ => false

/-- The environment that a step leaves. -/
def Environment.after : Environment → SettingsStep → Environment
  | env, .setVariable name value => env.set name value
  | env, .unsetVariable name => env.unset name
  | env, _ => env

theorem Environment.after_of_uses (env : Environment) {step : SettingsStep}
    (huses : step.uses = true) : env.after step = env := by
  cases step with
  | get | decode => rfl
  | _ => cases huses

namespace SettingsSession
variable {s s' : SettingsSession} {step : SettingsStep} {answer : SettingsAnswer}
variable {object : IssuedSettings} {given? : Option IssuedSettings}

/-! ### One step -/

/-- The settings object that a step hands out. -/
def object? (s : SettingsSession) : SettingsStep → Option IssuedSettings
  | .get | .decode _ => s.store.get.1.toOption
  | .make given => (s.store.make given).1.toOption
  | _ => none

/-- The answer of a step that hands out an object with these settings. -/
inductive AnswersWith (settings : Settings) : SettingsStep → SettingsAnswer → Prop
  | get (sameAsLast : Bool) : AnswersWith settings .get (.inUse settings sameAsLast)
  | decode (bytes : List UInt8) :
      AnswersWith settings (.decode bytes) (.decoded (Raster.decode settings bytes))
  | make (given : Arguments) : AnswersWith settings (.make given) (.made settings)

/-- The object is kept in the store or was handed out last. -/
def Holds (s : SettingsSession) (object : IssuedSettings) : Prop :=
  s.store.kept = some object ∨ s.last = some object

/-- What a step can do: the object that it hands out, its answer and the session after it. -/
inductive Advances (s : SettingsSession) :
    SettingsStep → Option IssuedSettings → SettingsAnswer → SettingsSession → Prop
  | served {step : SettingsStep} {object : IssuedSettings} {answer : SettingsAnswer}
      {last : Option IssuedSettings} (huses : step.uses = true)
      (hkept : s.store.kept = some object) (hanswer : AnswersWith object.settings step answer)
      (hlast : last = s.last ∨ last = some object) :
      Advances s step (some object) answer ⟨s.store, last⟩
  | loaded {step : SettingsStep} {settings : Settings} {answer : SettingsAnswer}
      {last : Option IssuedSettings} (huses : step.uses = true) (hkept : s.store.kept = none)
      (hload : Settings.load s.store.environment [] = .ok settings)
      (hanswer : AnswersWith settings step answer)
      (hlast : last = s.last ∨ last = some ⟨s.store.next, settings⟩) :
      Advances s step (some ⟨s.store.next, settings⟩) answer
        ⟨⟨s.store.environment, some ⟨s.store.next, settings⟩, s.store.next + 1⟩, last⟩
  | refused {step : SettingsStep} {problems : List Settings.Problem}
      (huses : step.uses = true) (hkept : s.store.kept = none)
      (hload : Settings.load s.store.environment [] = .error problems) :
      Advances s step none (.refused problems) s
  | cleared : Advances s .clear none .nothing ⟨s.store.clear, s.last⟩
  | changed {step : SettingsStep} (huses : step.uses = false) (hclear : step ≠ .clear) :
      Advances s step none .nothing
        ⟨{ s.store with environment := s.store.environment.after step }, s.last⟩
  | made {given : Arguments} {settings : Settings}
      (hload : Settings.load s.store.environment given = .ok settings) :
      Advances s (.make given) (some ⟨s.store.next, settings⟩) (.made settings)
        ⟨{ s.store with next := s.store.next + 1 }, some ⟨s.store.next, settings⟩⟩
  | unmade {given : Arguments} {problems : List Settings.Problem}
      (hload : Settings.load s.store.environment given = .error problems) :
      Advances s (.make given) none (.refused problems) s
  | assigned {field : String} {value : Settings.Value} :
      Advances s (.assign field value) none (.refused [⟨field, .frozenInstance⟩]) s

theorem get_of_load {store : SettingsStore} {settings : Settings} (hkept : store.kept = none)
    (hload : Settings.load store.environment [] = .ok settings) :
    store.get = (.ok ⟨store.next, settings⟩,
      ⟨store.environment, some ⟨store.next, settings⟩, store.next + 1⟩) := by
  simp only [SettingsStore.get, SettingsStore.make, hkept, hload]

theorem get_of_load_error {store : SettingsStore} {problems : List Settings.Problem}
    (hkept : store.kept = none)
    (hload : Settings.load store.environment [] = .error problems) :
    store.get = (.error problems, store) := by
  simp only [SettingsStore.get, SettingsStore.make, hkept, hload]

theorem advances_get (s : SettingsSession) :
    s.Advances .get (s.object? .get) (s.advance .get).1 (s.advance .get).2 := by
  cases hkept : s.store.kept with
  | some object =>
      simp only [object?, advance, SettingsStore.get_of_kept hkept]
      exact .served rfl hkept (.get _) (.inr rfl)
  | none =>
      cases hload : Settings.load s.store.environment [] with
      | ok settings =>
          simp only [object?, advance, get_of_load hkept hload]
          exact .loaded rfl hkept hload (.get _) (.inr rfl)
      | error problems =>
          simp only [object?, advance, get_of_load_error hkept hload]
          exact .refused rfl hkept hload

theorem advances_decode (s : SettingsSession) (bytes : List UInt8) :
    s.Advances (.decode bytes) (s.object? (.decode bytes)) (s.advance (.decode bytes)).1
      (s.advance (.decode bytes)).2 := by
  cases hkept : s.store.kept with
  | some object =>
      simp only [object?, advance, SettingsStore.decode, SettingsStore.settingsOr,
        SettingsStore.get_of_kept hkept]
      exact .served rfl hkept (.decode bytes) (.inl rfl)
  | none =>
      cases hload : Settings.load s.store.environment [] with
      | ok settings =>
          simp only [object?, advance, SettingsStore.decode, SettingsStore.settingsOr,
            get_of_load hkept hload]
          exact .loaded rfl hkept hload (.decode bytes) (.inl rfl)
      | error problems =>
          simp only [object?, advance, SettingsStore.decode, SettingsStore.settingsOr,
            get_of_load_error hkept hload]
          exact .refused rfl hkept hload

theorem advances_make (s : SettingsSession) (given : Arguments) :
    s.Advances (.make given) (s.object? (.make given)) (s.advance (.make given)).1
      (s.advance (.make given)).2 := by
  cases hload : Settings.load s.store.environment given with
  | ok settings =>
      simp only [object?, advance, SettingsStore.make, hload]
      exact .made hload
  | error problems =>
      simp only [object?, advance, SettingsStore.make, hload]
      exact .unmade hload

theorem advances (s : SettingsSession) (step : SettingsStep) :
    s.Advances step (s.object? step) (s.advance step).1 (s.advance step).2 := by
  cases step with
  | setVariable name value => exact .changed rfl SettingsStep.noConfusion
  | unsetVariable name => exact .changed rfl SettingsStep.noConfusion
  | clear => exact .cleared
  | get => exact advances_get s
  | make given => exact advances_make s given
  | assign field value => exact .assigned
  | decode bytes => exact advances_decode s bytes

namespace Advances
variable (h : s.Advances step given? answer s')
include h

theorem environment : s'.store.environment = s.store.environment.after step := by
  cases h with
  | served huses | loaded huses | refused huses =>
      exact (Environment.after_of_uses _ huses).symm
  | cleared | changed | made | unmade | assigned => rfl

/-- Only a clearing empties the store. -/
theorem kept (hclear : step ≠ .clear) (hkept : s.store.kept = some object) :
    s'.store.kept = some object := by
  cases h with
  | served | refused | changed | made | unmade | assigned => exact hkept
  | loaded _ hnone =>
      rw [hkept] at hnone
      cases hnone
  | cleared => exact absurd rfl hclear

/-- A use that obtains an object leaves it in the store. -/
theorem kept_of_uses (huses : step.uses = true) (hgiven : given? = some object) :
    s'.store.kept = some object := by
  cases h with
  | served _ hkept => rw [← hgiven]; exact hkept
  | loaded => exact hgiven
  | refused | unmade | cleared | assigned | changed => cases hgiven
  | made => cases huses

theorem next_le : s.store.next ≤ s'.store.next := by
  cases h with
  | loaded | made => exact Nat.le_succ _
  | served | refused | cleared | changed | unmade | assigned => exact Nat.le_refl _

/-- An object that is handed out was held before, or takes the next serial number. -/
theorem origin (hgiven : given? = some object) :
    s.Holds object ∨ s.store.next = object.serial ∧ s'.store.next = object.serial + 1 := by
  cases h with
  | served _ hkept => exact .inl (.inl (hkept.trans hgiven))
  | loaded | made =>
      cases hgiven
      exact .inr ⟨rfl,rfl⟩
  | refused | cleared | changed | unmade | assigned => cases hgiven

theorem holds (hheld : s'.Holds object) : s.Holds object ∨ given? = some object := by
  cases h with
  | served _ hkept _ hlast =>
      rcases hheld with hheld | hheld
      · exact .inl (.inl hheld)
      · rcases hlast with rfl | rfl
        · exact .inl (.inr hheld)
        · exact .inr hheld
  | loaded _ _ _ _ hlast =>
      rcases hheld with hheld | hheld
      · exact .inr hheld
      · rcases hlast with rfl | rfl
        · exact .inl (.inr hheld)
        · exact .inr hheld
  | made =>
      rcases hheld with hheld | hheld
      · exact .inl (.inl hheld)
      · exact .inr hheld
  | cleared =>
      rcases hheld with hheld | hheld
      · cases hheld
      · exact .inl (.inr hheld)
  | refused | changed | unmade | assigned => exact .inl hheld

end Advances

/-! ### Steps in turn -/

section History
variable (environment : Environment) (steps : List SettingsStep)

/-- The session in front of the step with an index. -/
def before (i : Nat) : SettingsSession :=
  stateAt (fun s step => (s.advance step).2) (.start environment) steps i

/-- The environment in front of the step with an index: the first one, as the steps before
changed it. -/
def environmentAt (i : Nat) : Environment :=
  stateAt Environment.after environment steps i

/-- The settings object that the step with an index hands out. -/
def objectAt? (i : Nat) : Option IssuedSettings :=
  steps[i]?.bind (before environment steps i).object?

/-- The step with the index uses settings. -/
def UsesAt (i : Nat) : Prop :=
  ∃ step, steps[i]? = some step ∧ step.uses = true

/-- How many steps there are up to the last clearing in front of the step with an index. -/
def lastCleared : Nat → Nat
  | 0 => 0
  | i + 1 => if steps[i]? = some .clear then i + 1 else lastCleared i

/-- The step with the index is a use, and its environment gives these settings. -/
structure LoadableAt (i : Nat) (settings : Settings) : Prop where
  uses : UsesAt steps i
  load : Settings.load (environmentAt environment steps i) [] = .ok settings

/-- Of the uses since the last clearing in front of step i, the one with index j is the first
whose environment is accepted, and gives these settings. -/
structure FirstLoad (i j : Nat) (settings : Settings) : Prop where
  since : lastCleared steps i ≤ j
  le : j ≤ i
  loadable : LoadableAt environment steps j settings
  first : ∀ k, lastCleared steps i ≤ k → k < j → ∀ v, ¬LoadableAt environment steps k v

/-- The object is made by the step with the index: it has the next serial number. -/
structure MadeAt (i : Nat) (object : IssuedSettings) : Prop where
  handed : objectAt? environment steps i = some object
  serial : (before environment steps i).store.next = object.serial
  next : (before environment steps (i + 1)).store.next = object.serial + 1

/-- What the store has in front of the step with an index. -/
inductive StoreAt (i : Nat) : Prop
  | empty (hkept : (before environment steps i).store.kept = none)
      (hnone : ∀ k, lastCleared steps i ≤ k → k < i → ∀ v, ¬LoadableAt environment steps k v)
  | filled {j : Nat} {object : IssuedSettings}
      (hkept : (before environment steps i).store.kept = some object) (hj : j < i)
      (hfirst : FirstLoad environment steps i j object.settings)
      (hmade : MadeAt environment steps j object)

end History

section
variable {environment : Environment} {steps : List SettingsStep} {i j k : Nat}
variable {a b : IssuedSettings}

theorem getElem?_answers (s : SettingsSession) (steps : List SettingsStep) (i : Nat) :
    (s.answers steps)[i]? = steps[i]?.map fun step =>
      ((stateAt (fun s step => (s.advance step).2) s steps i).advance step).1 := by
  induction steps generalizing s i with
  | nil => rfl
  | cons step steps ih =>
      cases i with
      | zero => rfl
      | succ i => exact ih (s.advance step).2 i

theorem advances_at (environment : Environment) (hstep : steps[i]? = some step) :
    (before environment steps i).Advances step (objectAt? environment steps i)
      ((before environment steps i).advance step).1 (before environment steps (i + 1)) := by
  have hobject : objectAt? environment steps i = (before environment steps i).object? step := by
    rw [objectAt?, hstep]
    rfl
  have hnext : before environment steps (i + 1) =
      ((before environment steps i).advance step).2 := stateAt_succ hstep
  rw [hobject, hnext]
  exact advances _ step

theorem before_succ_of_none (hstep : steps[i]? = none) :
    before environment steps (i + 1) = before environment steps i :=
  stateAt_succ_of_none hstep

theorem environment_before (environment : Environment) (steps : List SettingsStep) (i : Nat) :
    (before environment steps i).store.environment = environmentAt environment steps i := by
  induction i with
  | zero => rfl
  | succ i ih =>
      cases hstep : steps[i]? with
      | none =>
          rw [before_succ_of_none hstep, environmentAt, stateAt_succ_of_none hstep]
          exact ih
      | some step =>
          rw [(advances_at _ hstep).environment, environmentAt, stateAt_succ hstep, ih]
          rfl

theorem lastCleared_le (steps : List SettingsStep) (i : Nat) : lastCleared steps i ≤ i := by
  induction i with
  | zero => exact Nat.le_refl 0
  | succ i ih =>
      rw [lastCleared]
      split
      · exact Nat.le_refl _
      · exact Nat.le_succ_of_le ih

theorem lt_lastCleared (hk : steps[k]? = some .clear) (hki : k < i) : k < lastCleared steps i := by
  induction i with
  | zero => cases hki
  | succ i ih =>
      rw [lastCleared]
      split
      · exact hki
      · next hi =>
          apply ih
          refine Nat.lt_of_le_of_ne (Nat.le_of_lt_succ hki) ?_
          rintro rfl
          exact hi hk

theorem lastCleared_succ (hi : steps[i]? ≠ some .clear) :
    lastCleared steps (i + 1) = lastCleared steps i :=
  if_neg hi

theorem FirstLoad.succ {settings : Settings} (h : FirstLoad environment steps i j settings)
    (hi : steps[i]? ≠ some .clear) : FirstLoad environment steps (i + 1) j settings := by
  constructor
  · rw [lastCleared_succ hi]
    exact h.since
  · exact Nat.le_succ_of_le h.le
  · exact h.loadable
  · rw [lastCleared_succ hi]
    exact h.first

/-- A step that is no clearing and loads nothing leaves the store as it is. -/
theorem StoreAt.stay (h : StoreAt environment steps i) (hi : steps[i]? ≠ some .clear)
    (hkept : (before environment steps (i + 1)).store.kept =
      (before environment steps i).store.kept)
    (hno : (before environment steps i).store.kept = none →
      ∀ v, ¬LoadableAt environment steps i v) : StoreAt environment steps (i + 1) := by
  cases h with
  | filled hfilled hj hfirst hmade =>
      exact .filled (hkept.trans hfilled) (Nat.lt_succ_of_lt hj) (hfirst.succ hi) hmade
  | empty hempty hnone =>
      refine .empty (hkept.trans hempty) fun k hk hki => ?_
      rw [lastCleared_succ hi] at hk
      rcases Nat.lt_or_eq_of_le (Nat.le_of_lt_succ hki) with hki | rfl
      · exact hnone k hk hki
      · exact hno hempty

theorem not_loadableAt_of_uses (hstep : steps[i]? = some step) (huses : step.uses = false)
    (v : Settings) : ¬LoadableAt environment steps i v := by
  rintro ⟨⟨step',hstep',huses'⟩,-⟩
  rw [hstep] at hstep'
  cases hstep'
  rw [huses] at huses'
  cases huses'

theorem not_loadableAt_of_error {problems : List Settings.Problem}
    (hload : Settings.load (environmentAt environment steps i) [] = .error problems)
    (v : Settings) : ¬LoadableAt environment steps i v := by
  rintro ⟨-,hv⟩
  rw [hload] at hv
  cases hv

/-- A use in front of which nothing is kept, with an accepted environment, is the first. -/
theorem firstLoad_self {settings : Settings} (huses : UsesAt steps i)
    (hload : Settings.load (environmentAt environment steps i) [] = .ok settings)
    (hnone : ∀ k, lastCleared steps i ≤ k → k < i → ∀ v, ¬LoadableAt environment steps k v) :
    FirstLoad environment steps i i settings :=
  ⟨lastCleared_le steps i,Nat.le_refl i,⟨huses,hload⟩,hnone⟩

/-- What was kept is what was loaded first. -/
theorem StoreAt.not_empty (h : StoreAt environment steps i)
    (hkept : (before environment steps i).store.kept = some a) :
    ∃ j < i, FirstLoad environment steps i j a.settings ∧ MadeAt environment steps j a := by
  cases h with
  | empty hempty =>
      rw [hkept] at hempty
      cases hempty
  | filled hfilled hj hfirst hmade =>
      rw [hkept] at hfilled
      cases hfilled
      exact ⟨_,hj,hfirst,hmade⟩

theorem StoreAt.not_filled (h : StoreAt environment steps i)
    (hkept : (before environment steps i).store.kept = none) :
    ∀ k, lastCleared steps i ≤ k → k < i → ∀ v, ¬LoadableAt environment steps k v := by
  cases h with
  | empty _ hnone => exact hnone
  | filled hfilled =>
      rw [hkept] at hfilled
      cases hfilled

theorem ne_clear_of_uses (hstep : steps[i]? = some step) (huses : step.uses = true) :
    steps[i]? ≠ some .clear := by
  rintro hclear
  rw [hstep] at hclear
  cases hclear
  cases huses

theorem StoreAt.succ (h : StoreAt environment steps i) (hstep : steps[i]? = some step) :
    StoreAt environment steps (i + 1) := by
  have hadvances := advances_at environment hstep
  generalize hnext : before environment steps (i + 1) = s' at hadvances
  generalize hgiven : objectAt? environment steps i = given? at hadvances
  generalize ((before environment steps i).advance step).1 = answer at hadvances
  have hplain : step.uses = false → step ≠ .clear →
      s'.store.kept = (before environment steps i).store.kept →
        StoreAt environment steps (i + 1) := by
    intro huses hclear hkept
    refine h.stay ?_ (hnext ▸ hkept) fun _ => not_loadableAt_of_uses hstep huses
    rw [hstep]
    exact fun hc => hclear (Option.some.inj hc)
  cases hadvances with
  | served huses hkept =>
      refine h.stay (ne_clear_of_uses hstep huses) (by rw [hnext]) fun hnone => ?_
      rw [hkept] at hnone
      cases hnone
  | loaded huses hkept hload =>
      rw [environment_before] at hload
      have hfirst := firstLoad_self ⟨step,hstep,huses⟩ hload (h.not_filled hkept)
      exact .filled (by rw [hnext]) (Nat.lt_succ_self i)
        (hfirst.succ (ne_clear_of_uses hstep huses)) ⟨hgiven,rfl,by rw [hnext]⟩
  | refused huses hkept hload =>
      rw [environment_before] at hload
      exact h.stay (ne_clear_of_uses hstep huses) (by rw [hnext]) fun _ =>
        not_loadableAt_of_error hload
  | cleared =>
      refine .empty (by rw [hnext]; rfl) fun k hk hki => ?_
      have hlast : lastCleared steps (i + 1) = i + 1 := if_pos hstep
      omega
  | changed huses hclear => exact hplain huses hclear rfl
  | made | unmade | assigned => exact hplain rfl SettingsStep.noConfusion rfl

/-- In front of every step the store has what was loaded first since the last clearing. -/
theorem storeAt (environment : Environment) (steps : List SettingsStep) (i : Nat) :
    StoreAt environment steps i := by
  induction i with
  | zero => exact .empty rfl fun k _ hk => absurd hk (Nat.not_lt_zero k)
  | succ i ih =>
      cases hstep : steps[i]? with
      | some step => exact ih.succ hstep
      | none =>
          refine ih.stay (by rw [hstep]; exact (Option.some_ne_none _).symm) ?_ ?_
          · rw [before_succ_of_none hstep]
          · rintro - v ⟨⟨step,hsome,-⟩,-⟩
            rw [hstep] at hsome
            cases hsome

/-- An object that a use hands out was made by the first load. -/
theorem firstLoad_of_uses (hstep : steps[i]? = some step) (huses : step.uses = true)
    (hgiven : objectAt? environment steps i = some a) :
    ∃ j, FirstLoad environment steps i j a.settings ∧ MadeAt environment steps j a := by
  have hnext := (advances_at environment hstep).kept_of_uses huses hgiven
  obtain ⟨j,hj,hfirst,hmade⟩ := (storeAt environment steps (i + 1)).not_empty hnext
  refine ⟨j,⟨?_,Nat.le_of_lt_succ hj,hfirst.loadable,?_⟩,hmade⟩
  · rw [← lastCleared_succ (ne_clear_of_uses hstep huses)]
    exact hfirst.since
  · rw [← lastCleared_succ (ne_clear_of_uses hstep huses)]
    exact hfirst.first

/-- What a use comes to: it hands out an object and answers with its settings, or it is
refused and nothing is kept. -/
theorem uses_outcome (environment : Environment) (hstep : steps[i]? = some step)
    (huses : step.uses = true) :
    (∃ object, objectAt? environment steps i = some object ∧
      AnswersWith object.settings step ((before environment steps i).advance step).1) ∨
    ∃ problems, objectAt? environment steps i = none ∧
      (before environment steps i).store.kept = none ∧
      Settings.load (environmentAt environment steps i) [] = .error problems ∧
      ((before environment steps i).advance step).1 = .refused problems ∧
      before environment steps (i + 1) = before environment steps i := by
  have hadvances := advances_at environment hstep
  generalize before environment steps (i + 1) = s' at hadvances ⊢
  generalize objectAt? environment steps i = given? at hadvances ⊢
  generalize ((before environment steps i).advance step).1 = answer at hadvances ⊢
  cases hadvances with
  | served _ _ hanswer | loaded _ _ _ hanswer => exact .inl ⟨_,rfl,hanswer⟩
  | refused _ hkept hload =>
      rw [environment_before] at hload
      exact .inr ⟨_,rfl,hkept,hload,rfl,rfl⟩
  | changed hno =>
      rw [huses] at hno
      cases hno
  | cleared | made | unmade | assigned => cases huses

/-! ### Objects and their serial numbers -/

theorem next_le_next (hij : i ≤ j) :
    (before environment steps i).store.next ≤ (before environment steps j).store.next :=
  stateAt_of_le (P := fun s : SettingsSession =>
      (before environment steps i).store.next ≤ s.store.next)
    (fun s step h => Nat.le_trans h (s.advances step).next_le) hij (Nat.le_refl _)

/-- What a step hands out was held before it, or is made by it. -/
theorem holds_or_madeAt (hgiven : objectAt? environment steps i = some a) :
    (before environment steps i).Holds a ∨ MadeAt environment steps i a := by
  cases hstep : steps[i]? with
  | none =>
      rw [objectAt?, hstep] at hgiven
      cases hgiven
  | some step =>
      exact ((advances_at _ hstep).origin hgiven).imp_right fun hnew => ⟨hgiven,hnew.1,hnew.2⟩

/-- What is held was handed out before. -/
theorem exists_of_holds (hheld : (before environment steps i).Holds a) :
    ∃ j < i, objectAt? environment steps j = some a := by
  induction i with
  | zero => rcases hheld with h | h <;> cases h
  | succ i ih =>
      have hcases : (before environment steps i).Holds a ∨
          objectAt? environment steps i = some a := by
        cases hstep : steps[i]? with
        | none =>
            rw [before_succ_of_none hstep] at hheld
            exact .inl hheld
        | some step => exact (advances_at _ hstep).holds hheld
      rcases hcases with hheld | hgiven
      · obtain ⟨j,hj,hgiven⟩ := ih hheld
        exact ⟨j,Nat.lt_succ_of_lt hj,hgiven⟩
      · exact ⟨i,Nat.lt_succ_self i,hgiven⟩

theorem exists_madeAt (hgiven : objectAt? environment steps i = some a) :
    ∃ j ≤ i, MadeAt environment steps j a := by
  induction i using Nat.strongRecOn with
  | ind i ih =>
      rcases holds_or_madeAt hgiven with hheld | hmade
      · obtain ⟨j,hj,hgiven⟩ := exists_of_holds hheld
        obtain ⟨k,hk,hmade⟩ := ih j hj hgiven
        exact ⟨k,by omega,hmade⟩
      · exact ⟨i,Nat.le_refl i,hmade⟩

theorem MadeAt.not_lt (ha : MadeAt environment steps i a) (hb : MadeAt environment steps j b)
    (hserial : a.serial = b.serial) : ¬i < j := by
  intro hij
  have hnext : (before environment steps (i + 1)).store.next ≤ _ := next_le_next hij
  have hnew := ha.next
  have hold := hb.serial
  omega

/-- No serial number is given twice. -/
theorem MadeAt.unique (ha : MadeAt environment steps i a) (hb : MadeAt environment steps j b)
    (hserial : a.serial = b.serial) : i = j ∧ a = b := by
  have hij : i = j := by
    have hlt := ha.not_lt hb hserial
    have hgt := hb.not_lt ha hserial.symm
    omega
  subst hij
  have hhanded := ha.handed
  rw [hb.handed] at hhanded
  exact ⟨rfl,(Option.some.inj hhanded).symm⟩

theorem eq_of_serial_eq (ha : objectAt? environment steps i = some a)
    (hb : objectAt? environment steps j = some b) (hserial : a.serial = b.serial) : a = b := by
  obtain ⟨_,-,hmadeA⟩ := exists_madeAt ha
  obtain ⟨_,-,hmadeB⟩ := exists_madeAt hb
  exact (hmadeA.unique hmadeB hserial).2

/-- What is kept stays until the store is cleared. -/
theorem kept_of_le (hij : i ≤ j) (hclear : ∀ k, i ≤ k → k < j → steps[k]? ≠ some .clear)
    (hkept : (before environment steps i).store.kept = some a) :
    (before environment steps j).store.kept = some a := by
  induction hij with
  | refl => exact hkept
  | @step j hij ih =>
      have hj := ih fun k hk hkj => hclear k hk (Nat.lt_succ_of_lt hkj)
      cases hstep : steps[j]? with
      | none => rwa [before_succ_of_none hstep]
      | some step =>
          refine (advances_at _ hstep).kept ?_ hj
          rintro rfl
          exact hclear j hij (Nat.lt_succ_self j) hstep

theorem object?_of_kept (huses : step.uses = true) (hkept : s.store.kept = some a) :
    s.object? step = some a := by
  cases step with
  | get | decode =>
      rw [object?, SettingsStore.get_of_kept hkept]
      rfl
  | _ => cases huses

/-- Two uses hand out the same object exactly if no clearing lies between them. -/
theorem serial_eq_iff (hij : i < j) (hi : UsesAt steps i) (hj : UsesAt steps j)
    (ha : objectAt? environment steps i = some a) (hb : objectAt? environment steps j = some b) :
    a.serial = b.serial ↔ ∀ k, i < k → k < j → steps[k]? ≠ some .clear := by
  obtain ⟨stepI,hstepI,husesI⟩ := hi
  obtain ⟨stepJ,hstepJ,husesJ⟩ := hj
  constructor
  · intro hserial k hik hkj hclear
    obtain ⟨f,hfirstA,hmadeA⟩ := firstLoad_of_uses hstepI husesI ha
    obtain ⟨g,hfirstB,hmadeB⟩ := firstLoad_of_uses hstepJ husesJ hb
    obtain rfl := (hmadeA.unique hmadeB hserial).1
    have hfi := hfirstA.le
    have hfj := hfirstB.since
    have hlast := lt_lastCleared hclear hkj
    omega
  · intro hclear
    have hkept := (advances_at environment hstepI).kept_of_uses husesI ha
    have hkeptJ := kept_of_le hij (fun k hk => hclear k hk) hkept
    rw [objectAt?, hstepJ] at hb
    have hobject : (before environment steps j).object? stepJ = some b := hb
    rw [object?_of_kept husesJ hkeptJ] at hobject
    cases hobject
    rfl

/-! ### What answers tell -/

theorem advance_get_of_object? (hobject : s.object? .get = some object) :
    s.advance .get = (.inUse object.settings (s.last.any (·.serial == object.serial)),
      ⟨s.store.get.2, some object⟩) := by
  rw [object?] at hobject
  rw [advance]
  rcases hget : s.store.get with ⟨problems | given,store⟩
  · rw [hget] at hobject
    cases hobject
  · rw [hget] at hobject
    cases hobject
    rfl

/-- Which object was handed out last is changed by a get and by a make only. -/
theorem last_advance (hget : step ≠ .get) (hmake : ∀ given, step ≠ .make given) :
    (s.advance step).2.last = s.last := by
  cases step with
  | get => exact absurd rfl hget
  | make given => exact absurd rfl (hmake given)
  | decode bytes =>
      rw [advance]
      rcases s.store.decode none bytes with ⟨problems | run,store⟩ <;> rfl
  | setVariable | unsetVariable | clear | assign => rfl

/-- Neither a get nor a make hands out an object between the two steps. -/
def QuietBetween (steps : List SettingsStep) (i j : Nat) : Prop :=
  ∀ k, i < k → k < j → steps[k]? ≠ some .get ∧ ∀ given, steps[k]? ≠ some (.make given)

theorem last_of_quiet (hij : i < j) (hquiet : QuietBetween steps i j) :
    (before environment steps j).last = (before environment steps (i + 1)).last := by
  induction hij with
  | refl => rfl
  | @step j hij ih =>
      have hj := ih fun k hik hkj => hquiet k hik (Nat.lt_succ_of_lt hkj)
      obtain ⟨hget,hmake⟩ := hquiet j hij (Nat.lt_succ_self j)
      cases hstep : steps[j]? with
      | none => rw [before_succ_of_none hstep, hj]
      | some step =>
          rw [hstep] at hget hmake
          rw [before, stateAt_succ hstep, ← hj]
          exact last_advance (fun h => hget (congrArg some h))
            fun given h => hmake given (congrArg some h)

/-- A get tells whether its object is that of the last get, if nothing was handed out since. -/
theorem answer_of_get (hij : i < j) (hi : steps[i]? = some .get) (hj : steps[j]? = some .get)
    (hquiet : QuietBetween steps i j) (ha : objectAt? environment steps i = some a)
    (hb : objectAt? environment steps j = some b) :
    ((before environment steps j).advance .get).1 =
      .inUse b.settings (decide (a.serial = b.serial)) := by
  rw [objectAt?, hi] at ha
  rw [objectAt?, hj] at hb
  have hlast : (before environment steps j).last = some a := by
    rw [last_of_quiet hij hquiet, before, stateAt_succ hi]
    exact congrArg (fun r => r.2.last) (advance_get_of_object? ha)
  rw [advance_get_of_object? hb, hlast]
  rfl

end

/-- What holds along a session of the settings that it uses: where they come from, when two
uses share an object and when a get tells so, what a filled store returns and what becomes of
the objects. -/
structure Faithful (environment : Environment) (steps : List SettingsStep) : Prop where
  used : ∀ i step answer, steps[i]? = some step → step.uses = true →
    ((start environment).answers steps)[i]? = some answer →
      (∃ j object, objectAt? environment steps i = some object ∧
        FirstLoad environment steps i j object.settings ∧ MadeAt environment steps j object ∧
        AnswersWith object.settings step answer) ∨
      ∃ problems, objectAt? environment steps i = none ∧
        (∀ j, lastCleared steps i ≤ j → j ≤ i → ∀ v, ¬LoadableAt environment steps j v) ∧
        Settings.load (environmentAt environment steps i) [] = .error problems ∧
        answer = .refused problems ∧ (before environment steps (i + 1)).store.kept = none
  same : ∀ i j a b, i < j → UsesAt steps i → UsesAt steps j →
    objectAt? environment steps i = some a → objectAt? environment steps j = some b →
      (a.serial = b.serial ↔ ∀ k, i < k → k < j → steps[k]? ≠ some .clear)
  told : ∀ i j a b, i < j → steps[i]? = some .get → steps[j]? = some .get →
    QuietBetween steps i j → objectAt? environment steps i = some a →
    objectAt? environment steps j = some b →
      ((start environment).answers steps)[j]? =
        some (.inUse b.settings (decide (a.serial = b.serial)))
  filled : ∀ i step object, steps[i]? = some step → step ≠ .clear →
    (before environment steps i).store.kept = some object →
      (before environment steps (i + 1)).store.get =
        (.ok object, (before environment steps (i + 1)).store)
  assigned : ∀ i field value, steps[i]? = some (.assign field value) →
    ((start environment).answers steps)[i]? = some (.refused [⟨field, .frozenInstance⟩]) ∧
      before environment steps (i + 1) = before environment steps i
  held : ∀ i object, (before environment steps i).Holds object →
    ∃ j < i, objectAt? environment steps j = some object
  unchanged : ∀ i j a b, objectAt? environment steps i = some a →
    objectAt? environment steps j = some b → a.serial = b.serial → a = b
  positive : ∀ i object, objectAt? environment steps i = some object →
    1 ≤ object.settings.maxInputBytes

/-- Every session that starts with an empty store uses what was loaded first since its last
clearing. -/
theorem faithful (environment : Environment) (steps : List SettingsStep) :
    Faithful environment steps where
  used := by
    intro i step answer hstep huses hanswer
    have hadvance : ((before environment steps i).advance step).1 = answer := by
      rw [getElem?_answers, hstep] at hanswer
      exact Option.some.inj hanswer
    subst hadvance
    rcases uses_outcome environment hstep huses with
      ⟨object,hgiven,hanswer⟩ | ⟨problems,hgiven,hkept,hload,hanswer,hnext⟩
    · obtain ⟨j,hfirst,hmade⟩ := firstLoad_of_uses hstep huses hgiven
      exact .inl ⟨j,object,hgiven,hfirst,hmade,hanswer⟩
    · refine .inr ⟨problems,hgiven,fun j hj hji => ?_,hload,hanswer,by rw [hnext, hkept]⟩
      rcases Nat.lt_or_eq_of_le hji with hji | rfl
      · exact (storeAt environment steps i).not_filled hkept j hj hji
      · exact not_loadableAt_of_error hload
  same := fun i j a b => serial_eq_iff
  told := by
    intro i j a b hij hi hj hquiet ha hb
    rw [getElem?_answers, hj]
    exact congrArg some (answer_of_get hij hi hj hquiet ha hb)
  filled := by
    intro i step object hstep hclear hkept
    exact SettingsStore.get_of_kept ((advances_at _ hstep).kept hclear hkept)
  assigned := by
    intro i field value hstep
    rw [getElem?_answers, hstep, before, stateAt_succ hstep]
    exact ⟨rfl,rfl⟩
  held := fun i object => exists_of_holds
  unchanged := fun i j a b => eq_of_serial_eq
  positive := fun i object _ => object.settings.maxInputBytes_pos

/-- A load that is refused, one by a decoding that fails, a change that comes too late and one
that is seen behind a clearing. -/
example :
    ((start []).answers
      [.setVariable "PGRASTER_MAX_INPUT_BYTES" "0", .get,
        .setVariable "PGRASTER_MAX_INPUT_BYTES" "8", .decode [], .unsetVariable "X",
        .setVariable "PGRASTER_MAX_INPUT_BYTES" "9", .get, .get, .clear, .get]).map
        (fun answer => match answer with
          | .inUse settings same => (settings.maxInputBytes, same)
          | _ => (0,false)) =
      [(0,false), (0,false), (0,false), (0,false), (0,false), (0,false), (8,false), (8,true),
        (0,false), (9,false)] := by
  decide +kernel

end SettingsSession

end RasterWkb
