import RasterWkb.Settings.Environment

/-!
# Settings kept between uses

Settings that are asked for without arguments are loaded from the environment
once and kept until the store is cleared. A load that fails is not kept. Every
settings object handed out has a serial number, by which the same object is told
from an equal one.
-/
namespace RasterWkb

/-- A settings object: its number and its value. -/
structure IssuedSettings where
  serial : Nat
  settings : Settings
deriving DecidableEq, Repr

/-- An environment and what was loaded from it. -/
structure SettingsStore where
  environment : Environment
  kept : Option IssuedSettings
  /-- The number of the next object. -/
  next : Nat
deriving DecidableEq, Repr

namespace SettingsStore

/-- A store that has loaded nothing yet. -/
def start (environment : Environment) : SettingsStore :=
  ⟨environment, none, 0⟩

def setVariable (s : SettingsStore) (name value : String) : SettingsStore :=
  { s with environment := s.environment.set name value }

def unsetVariable (s : SettingsStore) (name : String) : SettingsStore :=
  { s with environment := s.environment.unset name }

/-- Forgets what was kept. -/
def clear (s : SettingsStore) : SettingsStore :=
  { s with kept := none }

/-- Makes a settings object from arguments and the environment. It is not kept. -/
def make (s : SettingsStore) (given : Arguments) :
    Except (List Settings.Problem) IssuedSettings × SettingsStore :=
  match Settings.load s.environment given with
  | .error problems => (.error problems, s)
  | .ok settings => (.ok ⟨s.next, settings⟩, { s with next := s.next + 1 })

/-- The kept settings object, loaded first if there is none. -/
def get (s : SettingsStore) : Except (List Settings.Problem) IssuedSettings × SettingsStore :=
  match s.kept with
  | some object => (.ok object, s)
  | none =>
    match s.make [] with
    | (.error problems, after) => (.error problems, after)
    | (.ok object, after) => (.ok object, { after with kept := some object })

theorem get_of_kept {s : SettingsStore} {object : IssuedSettings} (h : s.kept = some object) :
    s.get = (.ok object, s) := by
  simp [get, h]

end SettingsStore

end RasterWkb
