import SchemaDepot.Compile.Batch
import SchemaDepot.Compile.Calls

/-! # What a call answers

The languages of a call are settled in any order. Their results come with their positions, and the
answer has them in the order of the languages.

* `CompileResult.assemble`: results that come with their positions, in order.
* `Call.answer?`, `Call.single?`: the answer to a caller who asks for several languages, and to one
  who asks for a single one. -/

namespace SchemaDepot

/-- The results for the languages, in order, when some have come with their positions. One that has
not come stands for a failure. -/
def CompileResult.assemble (languages : List String) (arrived : List (Nat × CompileResult)) :
    List CompileResult :=
  let slots := arrived.foldl (fun slots (position, result) => slots.set position (some result))
    (List.replicate languages.length none)
  (slots.zip languages).map fun (slot, language) =>
    slot.getD (.failed language "compile task aborted")

/-- What an outcome is to a caller who asked for this language alone. -/
def Compiler.answerFor (language : String) : Outcome → Except Error CompileResult
  | (result, none) => .ok result
  | (_, some failure) => .error (failure.toError language)

namespace Call

/-- The outcome for the language at a position, when that is settled. -/
def outcome? (c : Compiler) (call : Call) (position : Nat) : Option Compiler.Outcome := do
  let (language, slot) ← call.slots[position]?
  if slot.isSettled c then some (c.outcome language slot.place?) else none

/-- The answer, when all languages are settled and their results have come in an order. -/
def answer? (c : Compiler) (call : Call) (order : List Nat) :
    Option (Except Error (List CompileResult)) :=
  if call.slots.isEmpty then some (.error .noLanguages)
  else if call.hasReturned c then
    let arrived := order.filterMap fun position =>
      (call.outcome? c position).map fun outcome => (position, outcome.1)
    some (.ok (CompileResult.assemble call.languages arrived))
  else none

/-- The answer to a caller who asked for a single language, when that is settled. -/
def single? (c : Compiler) (call : Call) : Option (Except Error CompileResult) :=
  match call.slots with
  | [(language, _)] => (call.outcome? c 0).map (Compiler.answerFor language)
  | _ => none

end Call

end SchemaDepot
