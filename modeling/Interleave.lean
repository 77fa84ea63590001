import Interleave.Config.Json
import Interleave.Json.Line
import Interleave.Proofs.Allocation.Interleaving
import Interleave.Proofs.Box.Canonicity
import Interleave.Proofs.Encoding.Cache
import Interleave.Proofs.Encoding.Garbage
import Interleave.Proofs.Encoding.Marks
import Interleave.Proofs.Encoding.Pruning
import Interleave.Proofs.Encoding.Relayout
import Interleave.Proofs.Field.Independence
import Interleave.Proofs.Fingerprint.Locality
import Interleave.Proofs.Heap.Idempotence
import Interleave.Proofs.Identity
import Interleave.Proofs.Kernel.Collection
import Interleave.Proofs.Kernel.Initialization
import Interleave.Proofs.Kernel.Refusal
import Interleave.Proofs.Kernel.Replay
import Interleave.Proofs.Kernel.Restore
import Interleave.Proofs.Monitor.Reentry
import Interleave.Proofs.Reference.Safety
import Interleave.Proofs.Reference.Tenancy
import Interleave.Proofs.Schedule.Suppression
import Interleave.Proofs.Search.Accounting
import Interleave.Proofs.Search.Aftermath
import Interleave.Proofs.Search.Collisions
import Interleave.Proofs.Search.DepthBound
import Interleave.Proofs.Search.Termination
import Interleave.Proofs.Text.Interning
import Interleave.Script.Exec
import Interleave.Script.Json
import Interleave.Session
import Interleave.Version
import Interleave.View.Outcome
import Interleave.Proofs.Json.RoundTrip
import Interleave.Proofs.Config.RoundTrip
import Interleave.Proofs.Schedule.Blocks
import Interleave.Proofs.Observer.Tidings
import Interleave.Proofs.Observer.Picture
import Interleave.Proofs.Arena.Refinement
import Interleave.Proofs.Arena.Changes
import Interleave.Proofs.Schedule.Enumeration
import Interleave.Proofs.Frame.Refinement
