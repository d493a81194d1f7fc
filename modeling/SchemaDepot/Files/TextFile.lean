/-! # Text files -/

namespace SchemaDepot

/-- A text file: its path, with slashes between the parts, and its text. -/
structure TextFile where
  path : String
  content : String
deriving DecidableEq

end SchemaDepot
