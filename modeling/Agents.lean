import Agents.Main
import Agents.Task.Lifecycle
import Agents.Proofs.Run.Protocol
import Agents.Proofs.Run.Conformity
import Agents.Proofs.Trace.Projection
import Agents.Proofs.Trace.Interleaving
import Agents.Proofs.Text.Base64
import Agents.Proofs.Identity
import Agents.Proofs.Run.Secrecy
import Agents.Proofs.Decimal.Shortest
import Agents.Proofs.Event
import Agents.Proofs.Json.Nesting
import Agents.Proofs.Trace.Storage
import Agents.Proofs.Fingerprint
import Agents.Proofs.Run.Caching
import Agents.Proofs.PartialJson.Repair
import Agents.Proofs.Run.Snapshots
import Agents.Proofs.Run.Silence
import Agents.Proofs.Run.Streaming
import Agents.Proofs.Script.Relay
import Agents.Proofs.Json.Pointer
import Agents.Proofs.Script.Place
import Agents.Proofs.Run.Draining
import Agents.Proofs.Script.Confinement
import Agents.Proofs.Script.Failure
import Agents.Proofs.Run.Fetching
import Agents.Proofs.Url.Allowance
import Agents.Proofs.Url.Percent
import Agents.Proofs.Http.Segments
import Agents.Proofs.Fingerprint.Separation
import Agents.Proofs.Run.Answer
import Agents.Proofs.Run.Siblings
import Agents.Proofs.Extraction.Stream
import Agents.Proofs.Extraction.Incremental
import Agents.Proofs.Trace.Depth
import Agents.Proofs.Trace.Commutation
import Agents.Proofs.Trace.Accounting
import Agents.Proofs.Script.Exchange
import Agents.Proofs.Run.PlainResult
import Agents.Proofs.Run.StreamedText
import Agents.Proofs.Run.Retrying
import Agents.Proofs.Template.Rendering
import Agents.Proofs.Run.Rounds
import Agents.Proofs.Run.Repeating
import Agents.Proofs.Definition.OutputSchema
import Agents.Proofs.Run.Preparing
import Agents.Proofs.Script.Import
import Agents.Proofs.Json.Place
import Agents.Proofs.Run.Quoting
import Agents.Proofs.Http.Parameters
import Agents.Proofs.PartialJson.Growth
import Agents.Proofs.Script.Payload
