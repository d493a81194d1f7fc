/-! # The stages of a job

A job waits, runs, and ends completed or failed. No other move exists. -/

namespace SchemaDepot

/-- The stages of a job. -/
inductive JobStatus where
  | pending
  | running
  | completed
  | failed
deriving DecidableEq

namespace JobStatus

/-- The word for a stage. -/
def word : JobStatus → String
  | pending => "pending"
  | running => "running"
  | completed => "completed"
  | failed => "failed"

/-- A job in this stage has ended. -/
def isTerminal : JobStatus → Bool
  | completed | failed => true
  | _ => false

/-- A job can move from one stage to another. -/
def canMoveTo : JobStatus → JobStatus → Bool
  | pending, running | running, completed | running, failed => true
  | _, _ => false

end JobStatus

end SchemaDepot
