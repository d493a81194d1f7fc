import SchemaDepot.Files.Path
import SchemaDepot.Settings.Format.Ini
import SchemaDepot.Settings.Format.Json
import SchemaDepot.Settings.Format.Json5
import SchemaDepot.Settings.Format.Ron
import SchemaDepot.Settings.Format.Toml
import SchemaDepot.Settings.Format.Yaml
import SchemaDepot.Settings.Layer

/-! # Formats of settings

* `SettingsFormat`: the formats that files of settings may be in, by their extensions.
* `SettingsFormat.read`: the layer in a text. -/

namespace SchemaDepot

/-- The formats that files of settings may be in. -/
inductive SettingsFormat where
  | toml
  | json
  | yaml
  | ini
  | ron
  | json5
deriving DecidableEq

namespace SettingsFormat

/-- The extensions of files with the formats they are in. -/
def extensions : List (String × SettingsFormat) :=
  [("toml", .toml), ("json", .json), ("yaml", .yaml), ("yml", .yaml), ("ini", .ini), ("ron", .ron),
    ("json5", .json5)]

/-- The format of the file at a path. -/
def ofPath? (path : String) : Option SettingsFormat := do
  let extension ← Path.extension? (Path.fileName path)
  (extensions.find? (·.1.toList == extension)).map Prod.snd

/-- The setting in a text. -/
def readSetting (format : SettingsFormat) (text : String) : Except Error Setting :=
  let ofFound : Option Setting → Except Error Setting
    | some s => .ok s
    | none => .error .badSettings
  match format with
  | toml => ofFound (Toml.readSetting text)
  | json => ofFound (Json.readSetting text)
  | yaml => Yaml.readSetting text
  | ini => ofFound (Ini.readSetting text)
  | ron => ofFound (Ron.readSetting text)
  | json5 => ofFound (Json5.readSetting text)

/-- The layer in a text, which must be a table. -/
def read (format : SettingsFormat) (text : String) : Except Error Layer := do
  match ← format.readSetting text with
  | .table entries => return entries
  | _ => .error .badSettings

end SettingsFormat

end SchemaDepot
