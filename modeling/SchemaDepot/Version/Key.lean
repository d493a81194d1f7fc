import SchemaDepot.Version.Semver

/-! # The order of versions

Semantic versions come first, by precedence; other texts come after them, by their characters. -/

namespace SchemaDepot

/-- What versions are ordered by. -/
inductive VersionKey where
  | semantic (version : Semver)
  | other (text : String)
deriving DecidableEq

namespace VersionKey

/-- The text without a single `v` before it. -/
def withoutV (s : String) : String :=
  match s.toList with
  | 'v' :: cs => String.ofList cs
  | _ => s

/-- The key of a version, which may start with a `v` if it is a semantic one. -/
def ofText (s : String) : VersionKey :=
  match Semver.read? (withoutV s) with
  | some version => semantic version
  | none => other s

/-- The version is a semantic one. -/
def isSemantic : VersionKey → Bool
  | semantic _ => true
  | other _ => false

/-- The order of keys. -/
def compare : VersionKey → VersionKey → Ordering
  | semantic a, semantic b => a.compare b
  | semantic _, other _ => .lt
  | other _, semantic _ => .gt
  | other a, other b => Ord.compare a b

/-- The items in the order of their keys; items with equal keys keep their order. -/
def sortBy {α : Type} (key : α → VersionKey) (items : List α) : List α :=
  items.mergeSort fun a b => ((key a).compare (key b)).isLE

end VersionKey

end SchemaDepot
