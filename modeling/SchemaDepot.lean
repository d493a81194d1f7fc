import SchemaDepot.Main
import SchemaDepot.Proofs.Schema.Placement
import SchemaDepot.Proofs.Token.Order
import SchemaDepot.Schema.Document.Decode
import SchemaDepot.Settings.Save
import SchemaDepot.Proofs.Schema.Row
import SchemaDepot.Proofs.Schema.Comments
import SchemaDepot.Proofs.Registry.Answers
import SchemaDepot.Proofs.Registry.Levels
import SchemaDepot.Proofs.Registry.Closure
import SchemaDepot.Proofs.Compile.Step
import SchemaDepot.Proofs.Compile.Sound
import SchemaDepot.Compile.Calls
import SchemaDepot.Proofs.Compile.Jobs
import SchemaDepot.Proofs.Compile.JobTable
import SchemaDepot.Proofs.Compile.Alone
import SchemaDepot.Proofs.Compile.Cache
import SchemaDepot.Proofs.Compile.Schedule
import SchemaDepot.Registry.Traffic
import SchemaDepot.Proofs.Digest.Frames
import SchemaDepot.Proofs.Generate.Fingerprint
import SchemaDepot.Proofs.Generate.Scope
import SchemaDepot.Proofs.Generate.References
import SchemaDepot.Proofs.Registry.Growth
import SchemaDepot.Proofs.Registry.Stages
import SchemaDepot.Proofs.Registry.Publication
import SchemaDepot.Proofs.Registry.Description
import SchemaDepot.Proofs.Registry.Permanence
import SchemaDepot.Proofs.Schema.Phrase
import SchemaDepot.Proofs.Schema.Recognition
import SchemaDepot.Proofs.Schema.Leaves
import SchemaDepot.Proofs.Schema.Acceptance
import SchemaDepot.Proofs.Schema.Concatenation
import SchemaDepot.Proofs.Compile.Permits
import SchemaDepot.Proofs.Registry.Filing
import SchemaDepot.Compile.Answers
import SchemaDepot.Proofs.Compile.Progress
import SchemaDepot.Proofs.Compile.Outcomes
import SchemaDepot.Proofs.Compile.Returns
import SchemaDepot.Proofs.Json.Parts
import SchemaDepot.Proofs.Json.Reading
import SchemaDepot.Proofs.Json.Strict
import SchemaDepot.Proofs.Schema.Points
import SchemaDepot.Proofs.Schema.Nesting
import SchemaDepot.Proofs.Schema.Decode
import SchemaDepot.Proofs.Schema.Survival
import SchemaDepot.Proofs.Registry.Union
import SchemaDepot.Proofs.Job.Operations
import SchemaDepot.Proofs.Registry.Loading
import SchemaDepot.Proofs.Generate.Emission
import SchemaDepot.Proofs.Compile.Onward
import SchemaDepot.Proofs.Compile.Request
import SchemaDepot.Proofs.Registry.Compilation
import SchemaDepot.Proofs.Registry.Depth
import SchemaDepot.Registry.Reads
import SchemaDepot.Proofs.Registry.Arrivals
import SchemaDepot.Proofs.Generate.Paths
import SchemaDepot.Proofs.Generate.Containment
import SchemaDepot.Proofs.Schema.Words
import SchemaDepot.Proofs.Generate.Sources
import SchemaDepot.Proofs.Generate.Spelling
import SchemaDepot.Proofs.Generate.Identifiers
import SchemaDepot.Proofs.Generate.Distinct
import SchemaDepot.Proofs.Generate.Numbering
import SchemaDepot.Proofs.Generate.Remarks
import SchemaDepot.Proofs.Schema.Trailing
import SchemaDepot.Proofs.Schema.Leading
import SchemaDepot.Proofs.Marker.Places
import SchemaDepot.Proofs.Token.Lexicon
import SchemaDepot.Proofs.Token.Lossless
import SchemaDepot.Proofs.Schema.Provenance
import SchemaDepot.Proofs.Token.Slices
import SchemaDepot.Proofs.Schema.Spans
import SchemaDepot.Proofs.Text.Utf8
import SchemaDepot.Proofs.Schema.Prompt
import SchemaDepot.Proofs.Schema.Faults
import SchemaDepot.Proofs.Token.Requoting
import SchemaDepot.Proofs.Token.Kept
import SchemaDepot.Proofs.Schema.Aggregates
import SchemaDepot.Proofs.Registry.Names
import SchemaDepot.Proofs.Registry.Admission
import SchemaDepot.Proofs.Registry.OwnFiles
import SchemaDepot.Proofs.Registry.Addressing
import SchemaDepot.Proofs.Version.Precedence
import SchemaDepot.Proofs.Version.Reading
import SchemaDepot.Proofs.Registry.Listing
import SchemaDepot.Proofs.Version.Seals
import SchemaDepot.Proofs.Compile.Erasure
import SchemaDepot.Proofs.Compile.Stopping
import SchemaDepot.Proofs.Compile.Cancellation
import SchemaDepot.Proofs.Generate.Extension
import SchemaDepot.Proofs.Generate.Wire
import SchemaDepot.Proofs.Registry.Layout
import SchemaDepot.Proofs.Settings.Saved
import SchemaDepot.Proofs.Schema.Preorder
