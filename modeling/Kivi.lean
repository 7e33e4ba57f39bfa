import Kivi.Chunk.Gc
import Kivi.Chunk.RangeWrite
import Kivi.Client.Escrow
import Kivi.Client.Execute
import Kivi.Consensus.AlmostLocal
import Kivi.Consensus.ImageCursor
import Kivi.Consensus.Roster
import Kivi.Control.FailureDetector
import Kivi.Durability.BitFlips
import Kivi.Durability.Reclamation
import Kivi.Engine.FastRead
import Kivi.Engine.Retries
import Kivi.Redundancy.Survivable
import Kivi.State.CounterOrders
import Kivi.State.Leases
import Kivi.State.MedianSplit
import Kivi.State.Planning
import Kivi.State.Streams
import Kivi.State.TermScan
import Kivi.Tablet.Routing
import Kivi.Txn.Atomicity
