import SchemaDepot.Digest.Checksum
import SchemaDepot.Files.TextFile

/-! # Fingerprints

A fingerprint identifies a row of values. Each value is hashed in a frame that names its role and
its length, so that neighbouring values cannot run together.

* `Frame.bytes`: a framed value.
* `Fingerprint.ofFrames`: the fingerprint of a row of frames.
* `Options`: named texts in the order of their names. -/

namespace SchemaDepot

/-! ### Options -/

/-- Named texts. The names are distinct and increase. -/
abbrev Options : Type := List (String × String)

namespace Options

/-- The options with one more, in place of one of the same name. -/
def insert (key value : String) : Options → Options
  | [] => [(key, value)]
  | (k, v) :: rest =>
    if key < k then (key, value) :: (k, v) :: rest
    else if key = k then (key, value) :: rest
    else (k, v) :: insert key value rest

/-- The options of a row of pairs, of which a later one replaces an earlier one of its name. -/
def ofList (pairs : List (String × String)) : Options :=
  pairs.foldl (fun options (key, value) => options.insert key value) []

/-- The value of an option, if it is given. -/
def get? (key : String) (options : Options) : Option String :=
  (options.find? (·.1 == key)).map Prod.snd

end Options

/-! ### Frames -/

/-- The role of a framed value. -/
inductive Role where
  | section
  | path
  | content
  | text
  | flag
  | key
  | value
deriving DecidableEq

/-- The byte that names a role. -/
def Role.tag : Role → UInt8
  | .section => 0x53
  | path => 0x50
  | content => 0x43
  | text => 0x54
  | flag => 0x42
  | key => 0x4B
  | value => 0x56

/-- A value in its role. -/
structure Frame where
  role : Role
  body : List UInt8
deriving DecidableEq

namespace Frame

/-- The lowest `n` bytes of a number, the lowest first. -/
def littleEndian : Nat → Nat → List UInt8
  | 0, _ => []
  | n + 1, value => UInt8.ofNat value :: littleEndian n (value / 256)

/-- The role, the length in eight bytes, and the value. -/
def bytes (f : Frame) : List UInt8 := f.role.tag :: littleEndian 8 f.body.length ++ f.body

/-- A text in a role. -/
def ofText (role : Role) (s : String) : Frame := ⟨role, textBytes s⟩

/-- The name of a section. -/
def ofSection (name : String) : Frame := ofText .section name

/-- A truth value, as one byte. -/
def ofFlag (b : Bool) : Frame := ⟨.flag, [if b then 1 else 0]⟩

/-- Files in order, each with its path and its content. -/
def ofFiles (files : List TextFile) : List Frame :=
  files.flatMap fun f => [ofText .path f.path, ofText .content f.content]

/-- Options in the order of their names. -/
def ofOptions (options : Options) : List Frame :=
  options.flatMap fun (key, value) => [ofText .key key, ofText .value value]

end Frame

/-- A fingerprint in hexadecimal. -/
structure Fingerprint where
  hex : String
deriving DecidableEq, Inhabited

namespace Fingerprint

/-- The fingerprint of a row of frames. -/
def ofFrames (frames : List Frame) : Fingerprint := ⟨Sha256.hex (frames.flatMap Frame.bytes)⟩

/-- The first twelve digits. -/
def short (f : Fingerprint) : String := String.ofList (f.hex.toList.take 12)

end Fingerprint

end SchemaDepot
