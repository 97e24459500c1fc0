import RasterWkb.Settings.Decoding

/-!
# Sessions with a settings store

A session goes through a list of steps that change the environment, load
settings or use them. It remembers the settings object that was handed out last.
Settings objects cannot be changed; an assignment to one is always refused.
-/
namespace RasterWkb

/-- One step of a session with a settings store. -/
inductive SettingsStep
  | setVariable (name value : String)
  | unsetVariable (name : String)
  | clear
  | get
  | make (given : Arguments)
  | assign (field : String) (value : Settings.Value)
  | decode (bytes : List UInt8)
deriving DecidableEq, Repr

/-- What a step gives. -/
inductive SettingsAnswer
  | nothing
  /-- The settings in use, and whether they are the object handed out last. -/
  | inUse (settings : Settings) (sameAsLast : Bool)
  | made (settings : Settings)
  | refused (problems : List Settings.Problem)
  | decoded (run : Run Raster)

/-- A store and the settings object handed out last. -/
structure SettingsSession where
  store : SettingsStore
  last : Option IssuedSettings
deriving DecidableEq, Repr

namespace SettingsSession

/-- A session that has loaded nothing yet. -/
def start (environment : Environment) : SettingsSession :=
  ⟨.start environment, none⟩

def advance (s : SettingsSession) : SettingsStep → SettingsAnswer × SettingsSession
  | .setVariable name value => (.nothing, { s with store := s.store.setVariable name value })
  | .unsetVariable name => (.nothing, { s with store := s.store.unsetVariable name })
  | .clear => (.nothing, { s with store := s.store.clear })
  | .get =>
    match s.store.get with
    | (.error problems, store) => (.refused problems, { s with store := store })
    | (.ok object, store) =>
      (.inUse object.settings (s.last.any (·.serial == object.serial)), ⟨store, some object⟩)
  | .make given =>
    match s.store.make given with
    | (.error problems, store) => (.refused problems, { s with store := store })
    | (.ok object, store) => (.made object.settings, ⟨store, some object⟩)
  | .assign field _ => (.refused [⟨field, .frozenInstance⟩], s)
  | .decode bytes =>
    match s.store.decode none bytes with
    | (.error problems, store) => (.refused problems, { s with store := store })
    | (.ok run, store) => (.decoded run, { s with store := store })

/-- The answers to steps in turn. -/
def answers (s : SettingsSession) : List SettingsStep → List SettingsAnswer
  | [] => []
  | step :: steps =>
    let next := s.advance step
    next.1 :: next.2.answers steps

end SettingsSession

end RasterWkb
