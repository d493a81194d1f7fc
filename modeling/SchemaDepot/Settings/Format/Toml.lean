import SchemaDepot.Settings.Setting
import SchemaDepot.Toml.Reader

/-! # Settings in TOML documents

* `Toml.readSetting`: the setting in a text. -/

namespace SchemaDepot.Toml

/-- The first key of a table that stands for the moment in its text. -/
def momentKey : String := "$__toml_private_datetime"

/-- The moment in a text as a setting. -/
def momentSetting? : Value → Option Setting
  | .text s => (Moment.ofText? s).map (.text ∘ Moment.text)
  | _ => none

mutual

/-- A value as a setting. -/
def setting? : Value → Option Setting
  | .text s => some (.text s)
  | .integer i => some (.integer i)
  | .float f => some (.number f)
  | .boolean b => some (.boolean b)
  | .moment m => some (.text m.text)
  | .array items => (itemSettings? items).map .list
  | .table [] => some (.table [])
  | .table ((key, v) :: es) =>
    if key = momentKey then momentSetting? v
    else do return .table ((key, ← setting? v) :: (← entrySettings? es))

/-- The items of an array as settings. -/
def itemSettings? : List Value → Option (List Setting)
  | [] => some []
  | v :: vs => do return (← setting? v) :: (← itemSettings? vs)

/-- The entries of a table as settings. -/
def entrySettings? : List (String × Value) → Option (List (String × Setting))
  | [] => some []
  | (key, v) :: es => do return (key, ← setting? v) :: (← entrySettings? es)

end

/-- The setting in a text. -/
def readSetting (text : String) : Option Setting := do setting? (.table (← read text))

end SchemaDepot.Toml
