import Noticeboard.Board.Arrival
import Noticeboard.Board.Basic
import Noticeboard.Board.Departure
import Noticeboard.Board.Listing
import Noticeboard.BoardName
import Noticeboard.Bus
import Noticeboard.Bytes
import Noticeboard.Config
import Noticeboard.ContentStore
import Noticeboard.Disk
import Noticeboard.Document.ConfigFile
import Noticeboard.Document.Json
import Noticeboard.Document.Reading
import Noticeboard.Document.Settings
import Noticeboard.Document.Shapes
import Noticeboard.Document.Shapes.Boards
import Noticeboard.Document.Shapes.Snapshot
import Noticeboard.Document.Toml
import Noticeboard.Document.Toml.Scalar
import Noticeboard.Document.Toml.Table
import Noticeboard.Document.Value
import Noticeboard.Engine
import Noticeboard.Event
import Noticeboard.Fetching
import Noticeboard.Figures
import Noticeboard.Identity
import Noticeboard.ListIndex
import Noticeboard.Message
import Noticeboard.MessageId
import Noticeboard.Metrics
import Noticeboard.Outbox
import Noticeboard.Proofs.Board.Arrival
import Noticeboard.Proofs.Board.ArrivalReport
import Noticeboard.Proofs.Board.Coherent
import Noticeboard.Proofs.Board.DeletedRoots
import Noticeboard.Proofs.Board.Departure
import Noticeboard.Proofs.Board.Descendants
import Noticeboard.Proofs.Board.Forest
import Noticeboard.Proofs.Board.Ghosts
import Noticeboard.Proofs.Board.Lookup
import Noticeboard.Proofs.Board.Loop
import Noticeboard.Proofs.Board.LoopSearch
import Noticeboard.Proofs.Board.Merging
import Noticeboard.Proofs.Board.Partition
import Noticeboard.Proofs.Board.Placement
import Noticeboard.Proofs.Board.Planted
import Noticeboard.Proofs.Board.RemovalReport
import Noticeboard.Proofs.Board.Run
import Noticeboard.Proofs.Board.Slots
import Noticeboard.Proofs.Board.View
import Noticeboard.Proofs.Board.Vouched
import Noticeboard.Proofs.Bus.Account
import Noticeboard.Proofs.Bus.Listeners
import Noticeboard.Proofs.Bus.Reading
import Noticeboard.Proofs.Bytes
import Noticeboard.Proofs.Collections
import Noticeboard.Proofs.Fetching.Pass
import Noticeboard.Proofs.Fetching.Rest
import Noticeboard.Proofs.Fetching.Rounds
import Noticeboard.Proofs.ListIndex
import Noticeboard.Proofs.ListIndex.Erasure
import Noticeboard.Proofs.ListIndex.Interleaving
import Noticeboard.Proofs.MessageId
import Noticeboard.Proofs.Outbox
import Noticeboard.Proofs.Relation
import Noticeboard.Proofs.Retry
import Noticeboard.Proofs.Retry.Backoff
import Noticeboard.Proofs.Retry.Sweeps
import Noticeboard.Proofs.Routing
import Noticeboard.Proofs.Sorting
import Noticeboard.Proofs.State.Commuting
import Noticeboard.Proofs.State.Copies
import Noticeboard.Proofs.State.DeletionPlan
import Noticeboard.Proofs.State.Downloads
import Noticeboard.Proofs.State.Erased
import Noticeboard.Proofs.State.Markers
import Noticeboard.Proofs.State.Missing
import Noticeboard.Proofs.State.Outbox
import Noticeboard.Proofs.State.Outgrown
import Noticeboard.Proofs.State.Refusals
import Noticeboard.Proofs.State.Relisting
import Noticeboard.Proofs.State.Restart
import Noticeboard.Proofs.State.Restoration
import Noticeboard.Proofs.State.Run
import Noticeboard.Proofs.State.Schedule
import Noticeboard.Proofs.State.Settling
import Noticeboard.Proofs.State.SnapshotFile
import Noticeboard.Proofs.State.Unsending
import Noticeboard.Proofs.State.Wanted
import Noticeboard.Proofs.Text.Marks
import Noticeboard.Proofs.ThreadTree.Descent
import Noticeboard.Proofs.ThreadTree.Knit
import Noticeboard.Proofs.ThreadTree.Preorder
import Noticeboard.Proofs.ThreadTree.Vouched
import Noticeboard.Proofs.Validation
import Noticeboard.Retry
import Noticeboard.Routing
import Noticeboard.Service
import Noticeboard.SnapshotStore
import Noticeboard.State
import Noticeboard.State.Deleting
import Noticeboard.State.Receiving
import Noticeboard.State.Sending
import Noticeboard.State.Snapshot
import Noticeboard.State.SnapshotFile
import Noticeboard.Subscriptions
import Noticeboard.Text.Hex
import Noticeboard.Text.Marks
import Noticeboard.Text.Printable
import Noticeboard.Text.Quoted
import Noticeboard.ThreadTree
import Noticeboard.Time
import Noticeboard.Token
import Noticeboard.Validation
import Noticeboard.View
