import SchemaDepot.Error
import SchemaDepot.Settings.Setting
import SchemaDepot.Yaml.Reader

/-! # Settings in YAML documents

A text without a document holds an empty table. The keys of tables are texts and integers; a number
that is not finite is spelled as in other formats.

* `Yaml.readSetting`: the setting in a text. -/

namespace SchemaDepot.Yaml

open Number

mutual

/-- A node as a setting. -/
def setting : Node → Except Error Setting
  | .missing | .nothing => .ok .nothing
  | .boolean b => .ok (.boolean b)
  | .integer i => .ok (.integer i)
  | .number literal =>
    match Binary64.read? literal.toList with
    | some f => .ok (.number f)
    | none => .error .badSettings
  | .text s => .ok (.text s)
  | .list items => do return .list (← itemSettings items)
  | .table entries => do return .ofEntries (← entrySettings entries)

/-- The items of a list as settings. -/
def itemSettings : List Node → Except Error (List Setting)
  | [] => .ok []
  | node :: nodes => do return (← setting node) :: (← itemSettings nodes)

/-- The entries of a table as settings. -/
def entrySettings : List (Node × Node) → Except Error (List (String × Setting))
  | [] => .ok []
  | (.text key, node) :: es => do return (key, ← setting node) :: (← entrySettings es)
  | (.integer i, node) :: es => do return (toString i, ← setting node) :: (← entrySettings es)
  | _ => .error .namelessKey

end

/-- The setting in a text. -/
def readSetting (text : String) : Except Error Setting :=
  match read? text with
  | some (some node) => setting node
  | some none => .ok (.table [])
  | none => .error .badSettings

end SchemaDepot.Yaml
