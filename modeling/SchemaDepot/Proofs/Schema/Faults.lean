import SchemaDepot.Proofs.Schema.Prompt
import SchemaDepot.Proofs.Schema.Spans
import SchemaDepot.Proofs.Text.Utf8
import SchemaDepot.Schema.Source

/-! # What is wrong with a text, and where

Bytes are a schema, or they are no text, or the text is malformed at one of its points. If a token
cannot be read, that is what is reported, even if the tokens before it are no schema.

* `Grammar.file_stops`: the token at which the grammar stops is told by the tokens before it.
* `Schema.Faulty`: the faults of texts, each with its place.
* `SchemaReader.parseBytes_answers`: what becomes of bytes. -/

namespace SchemaDepot

open Reader

/-- **A schema stops being one at a token, whatever is behind that token, or at the end.** -/
theorem Grammar.file_stops {ts : List Token} {stop : Stop} (h : file ts = .error stop) :
    (∃ t after before, stop.rest = t :: after ∧ ts = before ++ t :: after ∧
      ∀ behind, file (before ++ t :: behind) = .error ⟨stop.fault, t :: behind⟩) ∨
    stop.rest = [] := by
  obtain ⟨before, hts, same⟩ := file_prompt ts
  rw [h] at hts same
  cases hrest : stop.rest with
  | nil => exact Or.inr rfl
  | cons t after =>
    refine Or.inl ⟨t, after, before, rfl, hts.trans (congrArg _ hrest), fun behind => ?_⟩
    exact same (t :: behind) (by rw [left, hrest]; rfl)

namespace Schema

/-- The faults of a text, each with its place: where the first token cannot be read; if all of them
can, at a significant token with which no schema goes on, or at the end of the text. -/
inductive Faulty (text : String) : SyntaxFault → Prop
  | unreadable {fault : SyntaxFault} (h : Token.Unreadable text fault) : Faulty text fault
  | unexpected {ts before after : List Token} {t : Token} {final : Position} {fault : GrammarFault}
      (scanned : Token.scan text = .ok (ts, final))
      (tokens : Token.significant ts = before ++ t :: after)
      (stops : ∀ behind, Grammar.file (before ++ t :: behind) = .error ⟨fault, t :: behind⟩) :
      Faulty text ⟨.grammatical fault, t.span.start, none⟩
  | unfinished {ts : List Token} {final : Position} {fault : GrammarFault}
      (scanned : Token.scan text = .ok (ts, final))
      (stops : Grammar.file (Token.significant ts) = .error ⟨fault, []⟩)
      (there : final.After text.toList) : Faulty text ⟨.grammatical fault, final, none⟩

/-- The place of a fault is a point of the text. -/
theorem Faulty.in_text {text : String} {fault : SyntaxFault} (h : Faulty text fault) :
    fault.place.In text := by
  cases h with
  | unreadable h =>
    obtain ⟨source, -, -, -, -, there⟩ := h
    exact ⟨_, ⟨_, by rw [source, List.append_assoc]⟩, there⟩
  | unexpected scanned tokens stops =>
    refine (Token.in_of_scan scanned _ ?_).1
    have : _ ∈ Token.significant _ := tokens ▸ List.mem_append_right _ List.mem_cons_self
    exact List.mem_of_mem_filter this
  | unfinished _ _ there => exact ⟨_, List.prefix_rfl, there⟩

/-- **What is reported of a malformed text is a fault of it.** -/
theorem parse_faulty {m : Marker} {text : String} {fault : SyntaxFault}
    (h : parse m text = .error fault) : Faulty text fault := by
  rw [parse_eq] at h
  cases hscan : Token.scan text with
  | error lexical =>
    rw [hscan] at h
    cases h
    exact .unreadable (Token.scan_eq_error_iff.1 hscan)
  | ok found =>
    obtain ⟨ts, final⟩ := found
    cases hfile : Grammar.file (Token.significant ts) with
    | ok read =>
      simp only [hscan, hfile] at h
      cases h
    | error stop =>
      simp only [hscan, hfile, Except.error.injEq] at h
      subst h
      obtain ⟨t, after, before, hrest, tokens, stops⟩ | hrest := Grammar.file_stops hfile
      · rw [Stop.place, hrest]
        exact .unexpected hscan tokens stops
      · rw [Stop.place, hrest]
        exact .unfinished hscan (by rw [hfile, ← hrest]) (Token.scan_lossless hscan).2.2

end Schema

namespace SchemaReader

variable (r : SchemaReader)

/-- What becomes of bytes: the tree of the text that they encode; the length of their longest prefix
that encodes a text, if they do not; or a fault of the text, at a point of it. -/
inductive Answers (bytes : List UInt8) : Except Error Node → Prop
  | tree {text : String} {root : Node} (source : Text.Utf8.encode text.toList = bytes)
      (parsed : Schema.parse r.marker text = .ok root) : Answers bytes (.ok root)
  | notText {n : Nat} (none : ∀ cs, Text.Utf8.encode cs ≠ bytes)
      (reached : ∃ cs, Text.Utf8.encode cs <+: bytes ∧ (Text.Utf8.encode cs).length = n)
      (longest : ∀ cs, Text.Utf8.encode cs <+: bytes → (Text.Utf8.encode cs).length ≤ n) :
      Answers bytes (.error (.notUtf8 n))
  | malformed {text : String} {fault : SyntaxFault}
      (source : Text.Utf8.encode text.toList = bytes) (faulty : Schema.Faulty text fault)
      (place : fault.place.In text) : Answers bytes (.error (.malformed fault))

theorem parseBytes_encode (text : String) :
    r.parseBytes (Text.Utf8.encode text.toList) = r.parse text := by
  rw [parseBytes, Text.Utf8.decode_eq_ok_iff.2 rfl]

/-- **Bytes are read as a schema or end in a well-placed fault**, and a text with a token that
cannot be read ends in the fault of that token. -/
theorem parseBytes_answers (bytes : List UInt8) : r.Answers bytes (r.parseBytes bytes) ∧
    ∀ text fault, Text.Utf8.encode text.toList = bytes → Token.scan text = .error fault →
      r.parseBytes bytes = .error (.malformed fault) := by
  constructor
  · cases hdecode : Text.Utf8.decode bytes with
    | error n =>
      obtain ⟨none, reached, longest⟩ := Text.Utf8.decode_eq_error hdecode
      rw [parseBytes, hdecode]
      exact .notText none reached longest
    | ok text =>
      obtain rfl := Text.Utf8.decode_eq_ok_iff.1 hdecode
      rw [parseBytes_encode, parse]
      cases hparse : Schema.parse r.marker text with
      | ok root => exact .tree rfl hparse
      | error fault =>
        have faulty := Schema.parse_faulty hparse
        exact .malformed rfl faulty faulty.in_text
  · rintro text fault rfl hscan
    rw [parseBytes_encode, parse, Schema.parse_eq, hscan]

/-- A token that no schema begins with, and behind it a quote that is not closed. -/
theorem parseBytes_answers_open_quote :
    SchemaReader.Answers {} (Text.Utf8.encode "; 7\n 'é".toList)
        (SchemaReader.parseBytes {} (Text.Utf8.encode "; 7\n 'é".toList)) ∧
      SchemaReader.parseBytes {} (Text.Utf8.encode "; 7\n 'é".toList) =
        .error (.malformed ⟨.lexical .unterminatedLiteral, ⟨2, 2, 5⟩, none⟩) :=
  have both := parseBytes_answers {} (Text.Utf8.encode "; 7\n 'é".toList)
  ⟨both.1, both.2 _ _ rfl (by decide +kernel)⟩

end SchemaReader

end SchemaDepot
