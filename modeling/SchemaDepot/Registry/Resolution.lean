import SchemaDepot.Registry.Store

/-! # Resolution of dependencies

The versions that a version needs are read level by level: first those it refers to, then those they
refer to, each only once. Their files join its own; of files with one path the first counts.

* `Resolver.levels`: the versions needed, in the order of levels.
* `gather`: the answers to the reads of a level, in whatever order they came.
* `Union.ofSources`: files of several origins, and those that others stand before.
* `Resolver.resolve`: all of it for one version. -/

namespace SchemaDepot

/-- How far references are followed: to the versions named, or on from there. -/
inductive ResolutionMode where
  | direct
  | transitive
deriving DecidableEq

/-- A file that another one of its path stands before, and where both come from. -/
structure Shadowed where
  path : String
  keptFrom : VersionId
  droppedFrom : VersionId
deriving DecidableEq

/-! ### Union of files -/

/-- A file and the version it comes from. -/
structure Sourced where
  file : TextFile
  origin : VersionId
deriving DecidableEq

/-- Files of distinct paths, and those that were left out. -/
structure FileUnion where
  kept : List Sourced := []
  shadowed : List Shadowed := []
deriving DecidableEq

namespace FileUnion

/-- The union with one more file, which is left out if its path is taken. -/
def add (u : FileUnion) (s : Sourced) : FileUnion :=
  match u.kept.find? (·.file.path == s.file.path) with
  | none => { u with kept := u.kept ++ [s] }
  | some first => { u with shadowed := u.shadowed ++ [⟨s.file.path, first.origin, s.origin⟩] }

/-- The union with more files. -/
def addAll (u : FileUnion) (sources : List Sourced) : FileUnion := sources.foldl add u

/-- The files of a version, as they come from it. -/
def filesOf (v : Version) : List Sourced := v.files.map fun f => ⟨f, v.id⟩

end FileUnion

/-- The files that a compilation of a version needs, and the versions they come from. -/
structure Resolution where
  root : VersionId
  own : List TextFile
  dependencies : List TextFile
  versions : List VersionId
  shadowed : List Shadowed
deriving DecidableEq

namespace Resolution

/-- All files, those of the version itself first. -/
def files (r : Resolution) : List TextFile := r.own ++ r.dependencies

/-- A version with the versions that it needs, in their order. -/
def ofVersions (v : Version) (versions : List Version) : Resolution :=
  let own := FileUnion.addAll {} (FileUnion.filesOf v)
  let all := own.addAll (versions.flatMap FileUnion.filesOf)
  let files := all.kept.map Sourced.file
  { root := v.id
    own := files.take own.kept.length
    dependencies := files.drop own.kept.length
    versions := versions.map Version.id
    shadowed := all.shadowed }

end Resolution

/-! ### Levels -/

/-- How references are followed, and how many levels there may be. -/
structure Resolver where
  mode : ResolutionMode := .direct
  maxDepth : Nat := 32
deriving DecidableEq

/-- The references whose versions were not seen before, and all versions seen then. -/
def unseen (seen : List VersionId) : List Reference → List Reference × List VersionId
  | [] => ([], seen)
  | r :: rs =>
    if seen.contains r.id then unseen seen rs
    else
      let (level, seen) := unseen (r.id :: seen) rs
      (r :: level, seen)

/-- The answers to the reads of a level, each with the place of its reference. -/
def readAll (fetch : VersionId → Except Error Version) (level : List Reference) :
    List (Nat × Except Error Version) :=
  level.zipIdx.map fun (r, i) => (i, fetch r.id)

/-- The version that a reference leads to, by the answer for it. That there is none is told with
the reference. -/
def settle (r : Reference) : Option (Except Error Version) → Except Error Version
  | some (.ok v) => .ok v
  | some (.error e) => .error (if e.isNotFound then .dependencyNotFound r.text e else e)
  | none => .error (.serviceUnavailable ("no store result for " ++ r.text))

/-- The versions of a level, by answers in any order; failing that, what the first reference
without a version says. -/
def gather (level : List Reference) (answers : List (Nat × Except Error Version)) :
    Except Error (List Version) :=
  level.zipIdx.mapM fun (r, i) => settle r ((answers.find? (·.1 == i)).map Prod.snd)

namespace Resolver

/-- The most levels there may be; at least one. -/
def limit (r : Resolver) : Nat := max 1 r.maxDepth

/-- What the versions of a level refer to, if that counts. -/
def references (r : Resolver) (level : List Version) : Except Error (List Reference) :=
  match r.mode with
  | .direct => .ok []
  | .transitive => do return (← level.mapM Version.references).flatten

/-- The versions of this level and those below it, of which `room` may hold versions not yet
seen. -/
def levels (r : Resolver) (fetch : VersionId → Except Error Version) (root : VersionId) :
    Nat → List VersionId → List Reference → Except Error (List Version)
  | room, seen, frontier =>
    match unseen seen frontier with
    | ([], _) => .ok []
    | (level, seen) =>
      match room with
      | 0 => .error (.dependencyTooDeep root r.limit)
      | room + 1 => do
        let versions ← gather level (readAll fetch level)
        let next ← r.references versions
        return versions ++ (← levels r fetch root room seen next)

/-- What a version needs, other versions being read by `fetch`. -/
def resolve (r : Resolver) (fetch : VersionId → Except Error Version) (v : Version) :
    Except Error Resolution := do
  let first ← v.references
  return Resolution.ofVersions v (← r.levels fetch v.id r.limit [v.id] first)

end Resolver

/-- What the version of a name needs. -/
def Store.resolve (s : Store) (r : Resolver) (id : VersionId) : Except Error Resolution := do
  r.resolve s.getVersion (← s.getVersion id)

end SchemaDepot
