import Mathlib.Data.String.Basic
import Mathlib.Data.UInt
import SchemaDepot.Text.Utf8

/-! # Decoding undoes encoding

The bytes of a character are those that `String.utf8EncodeChar` gives it, and no others are read as
one.

* `Utf8.firstChar_encode`, `Utf8.encode_of_firstChar`: the character at the front of bytes.
* `Utf8.encode`: the bytes of characters; `Utf8.decode_eq_ok_iff`: what is decoded.
* `Utf8.decode_eq_error`: what is not; then the number is the length of the longest prefix that is
  the encoding of something.
* `Utf8.encode_lt_encode`: bytes have the order of the texts. -/

namespace SchemaDepot.Text

theorem toNat_of_charOf? {n : Nat} {c : Char} (h : charOf? n = some c) : c.toNat = n := by
  by_cases valid : n.isValidChar
  · rw [charOf?, dif_pos valid] at h
    cases h
    rfl
  · rw [charOf?, dif_neg valid] at h
    cases h

theorem charOf?_toNat (c : Char) : charOf? c.toNat = some c := by
  have valid : c.toNat.isValidChar := c.valid
  rw [charOf?, dif_pos valid]
  exact congrArg some (Char.toNat_inj.1 rfl)

namespace Utf8

/-! ### Characters -/

theorem toNat_lt (c : Char) : c.toNat < 0x110000 := by
  have valid : c.toNat.isValidChar := c.valid
  unfold Nat.isValidChar at valid
  omega

theorem toNat_ofNat {n : Nat} (h : n < 256) : (UInt8.ofNat n).toNat = n := by
  rw [UInt8.toNat_ofNat']
  omega

theorem ofByte?_one {n : Nat} (h : n < 0x80) : Lead.ofByte? (UInt8.ofNat n) = some ⟨0, n, 0⟩ := by
  rw [Lead.ofByte?, toNat_ofNat (by omega)]
  exact if_pos h

theorem ofByte?_two {n : Nat} (h : n < 32) :
    Lead.ofByte? (UInt8.ofNat (n + 192)) = some ⟨1, n, 0x80⟩ := by
  have bits : (n + 192) % 32 = n := by omega
  rw [Lead.ofByte?, toNat_ofNat (by omega), if_neg (by omega), if_pos (by omega), bits]

theorem ofByte?_three {n : Nat} (h : n < 16) :
    Lead.ofByte? (UInt8.ofNat (n + 224)) = some ⟨2, n, 0x800⟩ := by
  have bits : (n + 224) % 16 = n := by omega
  rw [Lead.ofByte?, toNat_ofNat (by omega), if_neg (by omega), if_neg (by omega),
    if_pos (by omega), bits]

theorem ofByte?_four {n : Nat} (h : n < 8) :
    Lead.ofByte? (UInt8.ofNat (n + 240)) = some ⟨3, n, 0x10000⟩ := by
  have bits : (n + 240) % 8 = n := by omega
  rw [Lead.ofByte?, toNat_ofNat (by omega), if_neg (by omega), if_neg (by omega),
    if_neg (by omega), if_pos (by omega), bits]

theorem continuations_cons (k n m : Nat) (bytes : List UInt8) :
    continuations (k + 1) n (UInt8.ofNat (m % 64 + 128) :: bytes) =
      continuations k (n * 64 + m % 64) bytes := by
  have bits : (m % 64 + 128) % 64 = m % 64 := by omega
  rw [continuations, toNat_ofNat (by omega), if_pos (by omega), bits]

/-- Bytes begin with a character if the first of them leads to it. -/
theorem firstChar_of_lead {b : UInt8} {bytes rest : List UInt8} {lead : Lead} {c : Char}
    (hlead : Lead.ofByte? b = some lead)
    (hn : continuations lead.more lead.bits bytes = some (c.toNat, rest))
    (least : lead.least ≤ c.toNat) : firstChar (b :: bytes) = some (c, rest) := by
  simp only [firstChar, hlead, hn, bind, Option.bind_some, if_pos least, charOf?_toNat]
  rfl

/-- **The bytes of a character are read as that character**, whatever stands behind them. -/
theorem firstChar_encode (c : Char) (rest : List UInt8) :
    firstChar (String.utf8EncodeChar c ++ rest) = some (c, rest) := by
  have bound := toNat_lt c
  unfold String.utf8EncodeChar
  rw [show c.val.toNat = c.toNat from rfl]
  simp only
  split_ifs with one two three
  · exact firstChar_of_lead (ofByte?_one (by omega)) rfl (Nat.zero_le _)
  · refine firstChar_of_lead (ofByte?_two (Nat.mod_lt _ (by decide))) ?_ (by simp only; omega)
    show continuations 1 (c.toNat / 64 % 32) (_ :: rest) = _
    rw [continuations_cons, continuations]
    congr 2
    omega
  · refine firstChar_of_lead (ofByte?_three (Nat.mod_lt _ (by decide))) ?_ (by simp only; omega)
    show continuations 2 (c.toNat / 4096 % 16) (_ :: _ :: rest) = _
    rw [continuations_cons, continuations_cons, continuations]
    congr 2
    omega
  · refine firstChar_of_lead (ofByte?_four (Nat.mod_lt _ (by decide))) ?_ (by simp only; omega)
    show continuations 3 (c.toNat / 262144 % 8) (_ :: _ :: _ :: rest) = _
    rw [continuations_cons, continuations_cons, continuations_cons, continuations]
    congr 2
    omega

theorem continuations_succ {k n m : Nat} {bytes rest : List UInt8}
    (h : continuations (k + 1) n bytes = some (m, rest)) : ∃ b bs, bytes = b :: bs ∧
      b.toNat / 64 = 2 ∧ continuations k (n * 64 + b.toNat % 64) bs = some (m, rest) := by
  cases bytes with
  | nil => cases h
  | cons b bs =>
    simp only [continuations] at h
    split_ifs at h with hb
    exact ⟨b, bs, rfl, hb, h⟩

theorem ofNat_eq {n : Nat} {b : UInt8} (h : n = b.toNat) : UInt8.ofNat n = b := by
  rw [h, UInt8.ofNat_toNat]

/-- **What is read as a character are its bytes.** -/
theorem encode_of_firstChar {bytes rest : List UInt8} {c : Char}
    (h : firstChar bytes = some (c, rest)) : bytes = String.utf8EncodeChar c ++ rest := by
  cases bytes with
  | nil => cases h
  | cons b bs =>
    simp only [firstChar, bind, Option.bind_eq_some_iff] at h
    obtain ⟨lead, hlead, ⟨n, left⟩, hn, h⟩ := h
    split_ifs at h with least
    obtain ⟨c', hc, he⟩ := Option.map_eq_some_iff.1 h
    cases he
    have hv : c.val.toNat = n := toNat_of_charOf? hc
    have byte := b.toNat_lt
    unfold String.utf8EncodeChar
    simp only [hv]
    simp only [Lead.ofByte?] at hlead
    split_ifs at hlead with one two three four <;> cases hlead <;> dsimp only at least hn
    · cases hn
      rw [if_pos (by omega), ofNat_eq rfl]
      rfl
    · obtain ⟨b1, bs1, rfl, h1, hn⟩ := continuations_succ hn
      cases hn
      rw [if_neg (by omega), if_pos (by omega), ofNat_eq (b := b) (by omega),
        ofNat_eq (b := b1) (by omega)]
      rfl
    · obtain ⟨b1, bs1, rfl, h1, hn⟩ := continuations_succ hn
      obtain ⟨b2, bs2, rfl, h2, hn⟩ := continuations_succ hn
      cases hn
      rw [if_neg (by omega), if_neg (by omega), if_pos (by omega), ofNat_eq (b := b) (by omega),
        ofNat_eq (b := b1) (by omega), ofNat_eq (b := b2) (by omega)]
      rfl
    · obtain ⟨b1, bs1, rfl, h1, hn⟩ := continuations_succ hn
      obtain ⟨b2, bs2, rfl, h2, hn⟩ := continuations_succ hn
      obtain ⟨b3, bs3, rfl, h3, hn⟩ := continuations_succ hn
      cases hn
      rw [if_neg (by omega), if_neg (by omega), if_neg (by omega), ofNat_eq (b := b) (by omega),
        ofNat_eq (b := b1) (by omega), ofNat_eq (b := b2) (by omega),
        ofNat_eq (b := b3) (by omega)]
      rfl

/-! ### Texts -/

/-- The bytes of characters. -/
def encode (cs : List Char) : List UInt8 := cs.flatMap String.utf8EncodeChar

theorem encode_cons (c : Char) (cs : List Char) :
    encode (c :: cs) = String.utf8EncodeChar c ++ encode cs := List.flatMap_cons

/-- Bytes are those of characters up to their end, or up to some that are no character. -/
theorem exists_encode (bytes : List UInt8) :
    ∃ cs rest, bytes = encode cs ++ rest ∧ (rest = [] ∨ rest ≠ [] ∧ firstChar rest = none) := by
  induction hn : bytes.length using Nat.strongRecOn generalizing bytes with
  | ind n ih =>
    cases h : firstChar bytes with
    | none =>
      refine ⟨[], bytes, rfl, ?_⟩
      by_cases he : bytes = []
      · exact Or.inl he
      · exact Or.inr ⟨he, h⟩
    | some read =>
      obtain ⟨c, rest⟩ := read
      have shorter := firstChar_length_lt h
      obtain ⟨cs, left, rfl, stop⟩ := ih rest.length (by omega) rest rfl
      exact ⟨c :: cs, left, by rw [encode_cons, encode_of_firstChar h, List.append_assoc], stop⟩

theorem decodeFrom_nil (valid : Nat) : decodeFrom valid [] = .ok [] := by
  rw [decodeFrom]
  rfl

theorem decodeFrom_none (valid : Nat) {bytes : List UInt8} (filled : bytes ≠ [])
    (h : firstChar bytes = none) : decodeFrom valid bytes = .error valid := by
  rw [decodeFrom, if_neg (by simpa using filled)]
  split
  · rfl
  · next found => rw [h] at found; cases found

theorem decodeFrom_some (valid : Nat) {bytes rest : List UInt8} {c : Char}
    (h : firstChar bytes = some (c, rest)) : decodeFrom valid bytes =
      (decodeFrom (valid + (bytes.length - rest.length)) rest).map (c :: ·) := by
  have filled : bytes ≠ [] := by
    rintro rfl
    cases h
  rw [decodeFrom, if_neg (by simpa using filled)]
  split
  · next none => rw [h] at none; cases none
  · next found =>
    rw [h] at found
    cases found
    rfl

/-- What is encoded is decoded, and then what stands behind it. -/
theorem decodeFrom_encode (valid : Nat) (cs : List Char) (rest : List UInt8) :
    decodeFrom valid (encode cs ++ rest) =
      (decodeFrom (valid + (encode cs).length) rest).map (cs ++ ·) := by
  induction cs generalizing valid with
  | nil => exact (congrFun Except.map_id _).symm
  | cons c cs ih =>
    have first := firstChar_encode c (encode cs ++ rest)
    rw [← List.append_assoc, ← encode_cons] at first
    have taken : valid + ((encode (c :: cs) ++ rest).length - (encode cs ++ rest).length) +
        (encode cs).length = valid + (encode (c :: cs)).length := by
      rw [encode_cons]
      simp only [List.length_append]
      omega
    rw [decodeFrom_some valid first, ih, taken]
    cases decodeFrom (valid + (encode (c :: cs)).length) rest <;> rfl

/-- No encoding that bytes begin with goes on where they stop being one. -/
theorem length_encode_le {cs ds : List Char} {rest : List UInt8} (h : firstChar rest = none)
    (hds : encode ds <+: encode cs ++ rest) : (encode ds).length ≤ (encode cs).length := by
  induction cs generalizing ds with
  | nil =>
    cases ds with
    | nil => exact Nat.le_refl _
    | cons d ds =>
      obtain ⟨left, he⟩ := hds
      rw [encode_cons, List.append_assoc] at he
      have first := firstChar_encode d (encode ds ++ left)
      rw [he] at first
      exact absurd (h.symm.trans first) (by simp)
  | cons c cs ih =>
    cases ds with
    | nil => exact Nat.zero_le _
    | cons d ds =>
      obtain ⟨left, he⟩ := hds
      rw [encode_cons, encode_cons, List.append_assoc, List.append_assoc] at he
      have first := firstChar_encode d (encode ds ++ left)
      rw [he, firstChar_encode] at first
      obtain ⟨rfl, same⟩ := Prod.mk.inj (Option.some.inj first)
      have := ih ⟨left, same.symm⟩
      simp only [encode_cons, List.length_append]
      omega

/-- **What is decoded is the text that the bytes encode.** -/
theorem decode_eq_ok_iff {bytes : List UInt8} {text : String} :
    decode bytes = .ok text ↔ encode text.toList = bytes := by
  constructor
  · intro h
    obtain ⟨cs, rest, rfl, stop⟩ := exists_encode bytes
    rw [decode, decodeFrom_encode] at h
    rcases stop with rfl | ⟨filled, none⟩
    · rw [decodeFrom_nil] at h
      cases h
      simp only [String.toList_ofList, List.append_nil]
    · rw [decodeFrom_none _ filled none] at h
      cases h
  · rintro rfl
    have whole := decodeFrom_encode 0 text.toList []
    rw [List.append_nil, decodeFrom_nil] at whole
    rw [decode, whole]
    simp [Except.map]

/-- **Bytes that are not decoded encode no text**, and the number is the length of the longest
prefix of them that encodes one. -/
theorem decode_eq_error {bytes : List UInt8} {n : Nat} (h : decode bytes = .error n) :
    (∀ cs, encode cs ≠ bytes) ∧ (∃ cs, encode cs <+: bytes ∧ (encode cs).length = n) ∧
      ∀ cs, encode cs <+: bytes → (encode cs).length ≤ n := by
  refine ⟨fun cs hcs => ?_, ?_⟩
  · have read : decode bytes = .ok (String.ofList cs) := decode_eq_ok_iff.2
      ((congrArg encode String.toList_ofList).trans hcs)
    rw [h] at read
    cases read
  · obtain ⟨cs, rest, rfl, stop⟩ := exists_encode bytes
    rw [decode, decodeFrom_encode, Nat.zero_add] at h
    rcases stop with rfl | ⟨filled, none⟩
    · rw [decodeFrom_nil] at h
      cases h
    · rw [decodeFrom_none _ filled none] at h
      cases h
      exact ⟨⟨cs, List.prefix_append _ _, rfl⟩, fun ds hds => length_encode_le none hds⟩

/-! ### Order -/

/-- Of two characters the one with the lower code point has the lower bytes. -/
theorem utf8EncodeChar_append_lt {c d : Char} (h : c < d) (as bs : List UInt8) :
    String.utf8EncodeChar c ++ as < String.utf8EncodeChar d ++ bs := by
  have lower : c.toNat < d.toNat := h
  have bound := toNat_lt d
  unfold String.utf8EncodeChar
  rw [show c.val.toNat = c.toNat from rfl, show d.val.toNat = d.toNat from rfl]
  simp only
  split_ifs <;> first | omega | skip
  all_goals
    simp (disch := omega) only [List.cons_append, List.nil_append, List.cons_lt_cons_iff,
      UInt8.lt_iff_toNat_lt, ← UInt8.toNat_inj, toNat_ofNat, Nat.mod_eq_of_lt]
    omega

/-- **The order of texts by their characters is the one by their bytes.** -/
theorem encode_lt_encode {cs ds : List Char} (h : cs < ds) : encode cs < encode ds := by
  induction h with
  | @nil d ds =>
    rw [encode_cons]
    cases hd : String.utf8EncodeChar d with
    | nil => exact absurd (congrArg List.length hd) (by simp [d.utf8Size_pos.ne'])
    | cons b bs => exact List.nil_lt_cons b (bs ++ encode ds)
  | rel lower =>
    rw [encode_cons, encode_cons]
    exact utf8EncodeChar_append_lt lower _ _
  | cons _ ih =>
    rw [encode_cons, encode_cons]
    exact List.Lex.append_left _ ih _

end Utf8

end SchemaDepot.Text
