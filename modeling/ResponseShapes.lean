import ResponseShapes.Log.Sinks
import ResponseShapes.Main
import ResponseShapes.Proofs.Edit.Apart
import ResponseShapes.Proofs.Edit.Frame
import ResponseShapes.Proofs.Edit.Bytes
import ResponseShapes.Proofs.Syntax.Laid
import ResponseShapes.Proofs.Endpoint.Agreement
import ResponseShapes.Proofs.Endpoint.Scanned
import ResponseShapes.Proofs.Declaration.Order
import ResponseShapes.Proofs.Declaration.FileName
import ResponseShapes.Proofs.Marker.Plan
import ResponseShapes.Proofs.Marker.Alike
import ResponseShapes.Proofs.Marker.Apart
import ResponseShapes.Proofs.Marker.Frame
import ResponseShapes.Proofs.Marker.Mention
import ResponseShapes.Proofs.Marker.Pieces
import ResponseShapes.Proofs.Marker.Reread
import ResponseShapes.Proofs.Marker.SecondPass
import ResponseShapes.Proofs.Marker.Settled
import ResponseShapes.Proofs.Marker.Dangling
import ResponseShapes.Proofs.Marker.Bound
import ResponseShapes.Proofs.Marker.Needs
import ResponseShapes.Proofs.Declaration.Blocks
import ResponseShapes.Proofs.Project.Disk
import ResponseShapes.Proofs.Text.Utf8
import ResponseShapes.Proofs.Project.Regenerated
import ResponseShapes.Proofs.Project.Directories
import ResponseShapes.Proofs.Pass.Basic
import ResponseShapes.Proofs.Pass.Output
import ResponseShapes.Proofs.Pass.Declarations
import ResponseShapes.Proofs.Pass.Scan
import ResponseShapes.Proofs.Pass.Sources
import ResponseShapes.Proofs.Pass.Settings
import ResponseShapes.Proofs.Pass.Again
import ResponseShapes.Proofs.Syntax.Gaps
import ResponseShapes.Proofs.Syntax.Guards
import ResponseShapes.Proofs.Syntax.Openings
import ResponseShapes.Proofs.Syntax.Reads
import ResponseShapes.Proofs.Syntax.Names
import ResponseShapes.Proofs.Syntax.Operands
import ResponseShapes.Proofs.Syntax.Objects
import ResponseShapes.Proofs.Syntax.Classes
import ResponseShapes.Proofs.Number.Rounding
import ResponseShapes.Proofs.Build.Lock
import ResponseShapes.Proofs.Build.Exclusion
import ResponseShapes.Proofs.Pass.Wiring
import ResponseShapes.Proofs.Pass.Writes
import ResponseShapes.Proofs.Pass.Modules
import ResponseShapes.Proofs.Build.Signature
import ResponseShapes.Proofs.Build.Exits
import ResponseShapes.Proofs.Pass.Legible
import ResponseShapes.Proofs.Pass.Rewriting
import ResponseShapes.Proofs.Build.Returns
import ResponseShapes.Proofs.Build.Fingerprint
import ResponseShapes.Proofs.Pass.Repeat
import ResponseShapes.Proofs.Build.Resurvey
import ResponseShapes.Proofs.Build.Course
import ResponseShapes.Proofs.Build.Rewired
import ResponseShapes.Proofs.Build.Skipped
import ResponseShapes.Proofs.Declaration.Keys
import ResponseShapes.Proofs.Declaration.LineEnds
import ResponseShapes.Proofs.Pass.Known
import ResponseShapes.Proofs.Pass.Recovered
import ResponseShapes.Proofs.Pass.Trial
import ResponseShapes.Proofs.Pass.Stale
import ResponseShapes.Proofs.Project.Walk
import ResponseShapes.Proofs.Pass.Listing
import ResponseShapes.Proofs.Endpoint.Rescan
import ResponseShapes.Proofs.Project.Expansion
import ResponseShapes.Proofs.Edit.Ascending
import ResponseShapes.Proofs.Syntax.Unquoted
import ResponseShapes.Proofs.Text.Literal
import ResponseShapes.Proofs.Marker.Description
import ResponseShapes.Proofs.Endpoint.Deciding
import ResponseShapes.Proofs.Declaration.Collisions
import ResponseShapes.Proofs.Project.Spelling
import ResponseShapes.Proofs.Build.Staleness
import ResponseShapes.Proofs.Endpoint.Closed
import ResponseShapes.Proofs.Syntax.Identifiers
import ResponseShapes.Proofs.Syntax.Leaves
import ResponseShapes.Proofs.Shape.Fields
import ResponseShapes.Proofs.Declaration.Identifiers
import ResponseShapes.Proofs.Declaration.Permuted
import ResponseShapes.Proofs.Text.JsonString
import ResponseShapes.Proofs.Shape.Distinct
import ResponseShapes.Proofs.Declaration.Properties
import ResponseShapes.Proofs.Shape.Equivalent
import ResponseShapes.Proofs.Pass.Without
import ResponseShapes.Proofs.Pass.Mirrored
import ResponseShapes.Proofs.Pass.Isolated
import ResponseShapes.Proofs.Pass.Unreadable
import ResponseShapes.Proofs.Endpoint.Permuted
import ResponseShapes.Proofs.Project.Specifier
import ResponseShapes.Proofs.Pass.Loading
import ResponseShapes.Proofs.Syntax.Taken
import ResponseShapes.Proofs.Syntax.Specifiers
import ResponseShapes.Proofs.Syntax.Imports
import ResponseShapes.Proofs.Syntax.Imported
import ResponseShapes.Proofs.Marker.Relisted
import ResponseShapes.Proofs.Shape.Returns
import ResponseShapes.Proofs.Syntax.Methods
import ResponseShapes.Proofs.Marker.Requoted
import ResponseShapes.Proofs.Pass.Usable
