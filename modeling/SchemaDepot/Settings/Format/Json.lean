import SchemaDepot.Json.Reader
import SchemaDepot.Settings.Setting

/-! # Settings in JSON documents

* `Json.readSetting`: the setting in a text. -/

namespace SchemaDepot.Json

/-- How deep arrays and objects may nest in a document of settings. -/
def settingDepth : Nat := 127

/-- A number: an integer, if it is written as one that fits into 64 bits and has a sign only if it
is not zero. -/
def settingOfNumber (literal : String) : Setting :=
  match (Number.integer? literal.toList).filter fun _ => literal ≠ "-0" with
  | some i => .integer i
  | none => ((double? literal).map .number).getD .nothing

mutual

/-- A document as a setting. -/
def setting : Json → Setting
  | bool b => .boolean b
  | number literal => settingOfNumber literal
  | string s => .text s
  | array items => .list (itemSettings items)
  | object members => .ofEntries (memberSettings members)
  | _ => .nothing

/-- The items of an array as settings. -/
def itemSettings : List Json → List Setting
  | [] => []
  | j :: js => j.setting :: itemSettings js

/-- The members of an object as settings. -/
def memberSettings : List (String × Json) → List (String × Setting)
  | [] => []
  | (key, j) :: ms => (key, j.setting) :: memberSettings ms

end

/-- The setting in a text. -/
def readSetting (text : String) : Option Setting := do
  let j ← read text
  if j.isStrict && j.depth ≤ settingDepth then some j.setting else none

end SchemaDepot.Json
