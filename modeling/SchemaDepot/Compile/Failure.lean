import SchemaDepot.Generate.Backend
import SchemaDepot.Job.Basic
import SchemaDepot.Text.Blank
import SchemaDepot.Text.Duration

/-! # Why jobs fail

* `Failure`: the reasons, with their wording.
* `Run.conclude`: what the end of a run means for its job. -/

namespace SchemaDepot

/-- Why a job failed. -/
inductive Failure where
  | unavailable
  | generator (message : String)
  | timedOut (micros : Nat)
  | panicked (message : String)
  | cancelled
deriving DecidableEq

namespace Failure

/-- The reason in words. -/
def message : Failure → String
  | unavailable => "no generator registered"
  | generator message => message
  | timedOut micros => "generator timed out after " ++ Text.duration micros
  | panicked message => "generator panicked: " ++ message
  | cancelled => Error.cancelled.message

/-- The error for a caller who asked for one language. -/
def toError (language : String) : Failure → Error
  | unavailable => .generatorUnavailable language
  | cancelled => .cancelled
  | failure => .generatorFailed language failure.message

end Failure

/-- What the end of a run means: files, or a failure that always says something. A run that does not
end means nothing. -/
def Run.conclude : Run → Option (Except Failure GeneratorOutput)
  | output out => some (.ok out)
  | error message =>
    some (.error (.generator
      (if Text.isBlankText message then "generator returned an empty error" else message)))
  | panic message => some (.error (.panicked (message.getD "unknown panic payload")))
  | never => none

end SchemaDepot
