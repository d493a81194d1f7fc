import SchemaDepot.Text.CodePoint

/-! # UTF-8 texts in byte lists

A character has one encoding, the shortest, and surrogates have none.

* `firstChar`: the character encoded at the front of a byte list.
* `decode`: the text in a byte list, or the length of the longest prefix that is valid. -/

namespace SchemaDepot.Text.Utf8

/-- What a first byte says: how many bytes follow it, its own bits, and the least code point that
needs this length. -/
structure Lead where
  more : Nat
  bits : Nat
  least : Nat

/-- A byte as the first one of a character. -/
def Lead.ofByte? (b : UInt8) : Option Lead :=
  let n := b.toNat
  if n < 0x80 then some ⟨0, n, 0⟩
  else if n / 32 = 6 then some ⟨1, n % 32, 0x80⟩
  else if n / 16 = 14 then some ⟨2, n % 16, 0x800⟩
  else if n / 8 = 30 then some ⟨3, n % 8, 0x10000⟩
  else none

/-- Appends the six low bits of each of the next `k` bytes to `n`. -/
def continuations : Nat → Nat → List UInt8 → Option (Nat × List UInt8)
  | 0, n, bytes => some (n, bytes)
  | _ + 1, _, [] => none
  | k + 1, n, b :: bytes =>
    if b.toNat / 64 = 2 then continuations k (n * 64 + b.toNat % 64) bytes else none

/-- The character encoded at the front of the bytes, and the bytes after it. -/
def firstChar : List UInt8 → Option (Char × List UInt8)
  | [] => none
  | b :: bytes => do
    let lead ← Lead.ofByte? b
    let (n, rest) ← continuations lead.more lead.bits bytes
    if lead.least ≤ n then (charOf? n).map fun c => (c, rest) else none

theorem continuations_length_le {k n m : Nat} {bytes rest : List UInt8}
    (h : continuations k n bytes = some (m, rest)) : rest.length ≤ bytes.length := by
  induction k generalizing n bytes with
  | zero => simp_all [continuations]
  | succ k ih =>
    cases bytes with
    | nil => simp [continuations] at h
    | cons b bytes =>
      simp only [continuations] at h
      split at h
      · have := ih h
        simp only [List.length_cons]
        omega
      · simp at h

theorem firstChar_length_lt {c : Char} {bytes rest : List UInt8}
    (h : firstChar bytes = some (c, rest)) : rest.length < bytes.length := by
  cases bytes with
  | nil => simp [firstChar] at h
  | cons b bytes =>
    simp only [firstChar, bind, Option.bind_eq_some_iff] at h
    obtain ⟨lead, -, ⟨n, r⟩, hr, h⟩ := h
    have := continuations_length_le hr
    split at h
    · obtain ⟨_, -, h⟩ := Option.map_eq_some_iff.1 h
      simp only [Prod.mk.injEq] at h
      simp only [List.length_cons, ← h.2]
      omega
    · simp at h

/-- The text in `bytes`, where `valid` bytes before them were read already; failing that, how many
bytes stand before the first that starts no character. -/
def decodeFrom (valid : Nat) (bytes : List UInt8) : Except Nat (List Char) :=
  if bytes.isEmpty then .ok []
  else
    match _h : firstChar bytes with
    | none => .error valid
    | some (c, rest) => (decodeFrom (valid + (bytes.length - rest.length)) rest).map (c :: ·)
termination_by bytes.length
decreasing_by exact firstChar_length_lt _h

/-- The text in `bytes`, or the length of their longest prefix that is valid. -/
def decode (bytes : List UInt8) : Except Nat String :=
  (decodeFrom 0 bytes).map String.ofList

end SchemaDepot.Text.Utf8
