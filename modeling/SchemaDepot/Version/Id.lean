/-! # Names of versions -/

namespace SchemaDepot

/-- The name of a version: its module and its version within that. -/
structure VersionId where
  module : String
  version : String
deriving DecidableEq, Inhabited

/-- The module and the version with an at sign between them. -/
def VersionId.display (id : VersionId) : String := id.module ++ "@" ++ id.version

end SchemaDepot
