import RasterWkb.Settings

/-!
# Settings from environment variables and arguments

A setting takes its value from an argument, else from its environment variable,
else it has its standard value. Arguments and variables are found without regard
to case. Of several that differ in case only, the argument given first and the
variable set last count.

All objections are gathered, in the order of the names that they concern.
-/
namespace RasterWkb

namespace SettingName

/-- The small letter of a capital that has an ASCII one: besides the ASCII
capitals, the Kelvin sign. -/
def small (c : Char) : Char :=
  if c.toNat = 0x212A then 'k' else c.toLower

/-- Whether two names differ in the case of letters at most. -/
def same (a b : String) : Bool :=
  a.toList.map small == b.toList.map small

end SettingName

/-- Environment variables in the order in which their names were first set. -/
abbrev Environment := List (String × String)

namespace Environment

/-- Sets a variable. A name that is there already keeps its place. -/
def set (env : Environment) (name value : String) : Environment :=
  if env.any (·.1 == name) then env.map fun v => if v.1 == name then (name, value) else v
  else env ++ [(name, value)]

/-- Removes a variable. -/
def unset (env : Environment) (name : String) : Environment :=
  env.filter (·.1 != name)

/-- The variable of a setting. -/
def variableOf (field : Settings.Field) : String :=
  "PGRASTER_" ++ field.name

/-- The value of the last variable whose name is that of the setting's variable. -/
def find? (env : Environment) (field : Settings.Field) : Option String :=
  (env.reverse.find? fun v => SettingName.same v.1 (variableOf field)).map (·.2)

end Environment

/-- Arguments given for settings, by name. -/
abbrev Arguments := List (String × Settings.Value)

namespace Settings

/-- The value offered for a setting. -/
def offered? (env : Environment) (given : Arguments) (field : Field) : Option Value :=
  match given.find? fun a => SettingName.same a.1 field.name with
  | some argument => some argument.2
  | none => (env.find? field).map .text

/-- Reads a setting, or takes its standard value if none is offered. -/
def readOr {α : Type} (standard : α) (read : Value → Except Objection α) :
    Option Value → Except Objection α
  | none => .ok standard
  | some value => read value

/-- The arguments that are no settings. -/
def extras (given : Arguments) : List Problem :=
  (given.filter fun a => !(Field.all.any fun field => SettingName.same a.1 field.name)).map
    fun a => ⟨a.1, .extraForbidden⟩

/-- The objection of a reading, if it has one. -/
def objections {α : Type} (field : Field) : Except Objection α → List Problem
  | .ok _ => []
  | .error objection => [⟨field.name, objection⟩]

def sorted (problems : List Problem) : List Problem :=
  problems.mergeSort fun a b => !decide (b.field < a.field)

/-- The settings of an environment and arguments, or all that is wrong with them. -/
def load (env : Environment) (given : Arguments) : Except (List Problem) Settings :=
  let passing := readOr standard.skipUnsupportedPayload readFlag
    (offered? env given .skipUnsupportedPayload)
  let limit := readOr ⟨standard.maxInputBytes, standard.maxInputBytes_pos⟩ readLimit
    (offered? env given .maxInputBytes)
  match passing, limit, extras given with
  | .ok passing, .ok limit, [] => .ok ⟨passing, limit.1, limit.2⟩
  | passing, limit, extra =>
    .error (sorted (objections .skipUnsupportedPayload passing
      ++ objections .maxInputBytes limit ++ extra))

end Settings

end RasterWkb
