import RasterWkb.Raster
import RasterWkb.Settings.Store

/-!
# Decoding with settings from a store

A decoding that is given no settings uses those of the store, which are loaded
then if there are none. They are loaded before the input is looked at, but
behind the check of a hexadecimal text.
-/
namespace RasterWkb.SettingsStore

/-- The given settings, or else those of the store. -/
def settingsOr (s : SettingsStore) (given : Option Settings) :
    Except (List Settings.Problem) Settings × SettingsStore :=
  match given with
  | some settings => (.ok settings, s)
  | none =>
    match s.get with
    | (.error problems, after) => (.error problems, after)
    | (.ok object, after) => (.ok object.settings, after)

/-- Decodes a buffer. -/
def decode (s : SettingsStore) (given : Option Settings) (bytes : List UInt8) :
    Except (List Settings.Problem) (Run Raster) × SettingsStore :=
  match s.settingsOr given with
  | (.error problems, after) => (.error problems, after)
  | (.ok settings, after) => (.ok (Raster.decode settings bytes), after)

/-- Decodes a hexadecimal text. -/
def decodeText (s : SettingsStore) (given : Option Settings) (text : String) :
    Except (List Settings.Problem) (Run Raster) × SettingsStore :=
  match HexText.decode text with
  | .error fault =>
    (.ok ⟨.error (.decode (.malformedHex fault)), Cursor.start [] none, []⟩, s)
  | .ok bytes => s.decode given bytes

end RasterWkb.SettingsStore
