import Noticeboard.Event
import Noticeboard.State

/-!
# Receiving

A received message is checked and filed on every board that it targets; then it counts as
downloaded, and a failed fetch of it is forgotten. A message that fails the check is treated the
same but for the filing, so that it is not fetched again. Content by a deleted identity is refused
outright.

A received list may make messages wanted. Of those, the ones stored already count as downloaded.
-/

namespace Noticeboard

/-- What the arrival of one message changed. -/
structure Arrival where
  message : MessageId
  /-- One report for each board it targets, by name. -/
  boards : List IngestReport
deriving DecidableEq

namespace Arrival

/-- Whether every board had the message already. -/
def isDuplicate (a : Arrival) : Bool := a.boards.all (·.isDuplicate)

/-- Whether the message filled a ghost on some board. -/
def ghostResolved (a : Arrival) : Bool := a.boards.any (·.ghostResolved)

/-- The notifications about one board. -/
def notificationsOf (id : MessageId) (r : IngestReport) : List Event :=
  if r.isDuplicate then []
  else if r.ghostResolved then [.boardUpdated r.board id, .ghostResolved r.board id]
  else [.boardUpdated r.board id]

/-- The notifications about the boards that changed. -/
def notifications (a : Arrival) : List Event := a.boards.flatMap (notificationsOf a.message)

end Arrival

namespace State

/-- Counts a message as downloaded and forgets that fetching it failed. -/
def settle (s : State) (id : MessageId) : State :=
  { s with
    lists := (s.lists.markDownloaded id).1
    markers := s.markers.succeed (.message id) }

/-- Files a message on one board, which comes into being with it. A deletion may have swept the board
since the author was checked, so the author is checked again. -/
def fileOn (s : State) (m : Message) (name : BoardName) :
    State × Except EngineError IngestReport :=
  let s := { s with boards := s.boards.insertIfNew name (.empty name) }
  if s.isDeleted m.author then (s, .error (.deletedIdentity m.author))
  else
    match (s.board name).ingest m with
    | .ok (g, r) => ({ s with boards := s.boards.insert name g }, .ok r)
    | .error e => (s, .error (.board e))

/-- Files a message on several boards, up to the first that refuses it. -/
def fileOnAll (s : State) (m : Message) :
    List BoardName → State × Except EngineError (List IngestReport)
  | [] => (s, .ok [])
  | name :: rest =>
    match s.fileOn m name with
    | (s, .error e) => (s, .error e)
    | (s, .ok r) =>
      let (s, rs) := s.fileOnAll m rest
      (s, rs.map (r :: ·))

/-- Files a message that passed the check on all its boards. -/
def deliver (s : State) (m : Message) : State × Except EngineError Arrival :=
  match s.fileOnAll m m.boards.toList with
  | (s, .error e) => (s, .error e)
  | (s, .ok boards) => (s.settle m.id, .ok { message := m.id, boards })

/-- Takes a downloaded message, fetched as one by `announcedBy`. -/
def receive (s : State) (limits : Limits) (m : Message) (announcedBy : Option IdentityId) :
    State × Except EngineError Arrival :=
  if s.isDeleted m.author then (s, .error (.deletedIdentity m.author))
  else
    match m.validate announcedBy limits with
    | .error e => (s.settle m.id, .error (.validation e))
    | .ok () => s.deliver m

/-- Takes a downloaded list and gives the messages to fetch because of it. -/
def receiveList (s : State) (limits : ListLimits) (id : ListId) (references : List Announcement)
    (received : Timestamp) : State × Except EngineError (List MessageId) :=
  if s.isDeleted id.author then (s, .error (.deletedIdentity id.author))
  else
    match s.lists.receive limits id references received with
    | .error e => (s, .error (.list e))
    | .ok (lists, wanted) =>
      let (stored, missing) := wanted.partition s.isStored
      ({ s with
          lists := stored.foldl (fun ix id => (ix.markDownloaded id).1) lists
          markers := s.markers.succeed (.list id) }, .ok missing)

/-! ## Wanted content -/

/-- The threads of a board whose root has never been seen. -/
def unknownRoots (g : Board) : List MessageId :=
  (g.trees.filter (·.root == .unknown)).map (·.id)

/-- The messages that something refers to: announced and not downloaded, standing as a ghost, or the
unknown root of a thread. -/
def referred (s : State) : IdSet :=
  .ofList (s.lists.toFetch.map (·.message) ++
    s.boards.toList.flatMap fun (_, g) => g.ghostIds.toList ++ unknownRoots g)

/-- The messages to fetch now, ascending: those referred to, unless their author was deleted, they
are stored, or a failed fetch has to wait. -/
def toFetch (s : State) (now : Timestamp) : List MessageId :=
  s.referred.toList.filter fun id =>
    !s.isDeleted id.author && !s.isStored id && s.markers.isRetryAllowed (.message id) now

/-- The authors of known lists. -/
def listAuthors (s : State) : Std.ExtTreeSet IdentityId :=
  .ofList (s.lists.lists.keys.map (·.author))

/-- The lists to fetch now: missing editions of known authors, unless a failed fetch has to wait. -/
def listsToFetch (s : State) (limits : ListLimits) (now : Timestamp) : List ListId :=
  (s.listAuthors.toList.flatMap fun author =>
    (s.lists.missingEditions limits author).map fun edition => ⟨author, edition⟩).filter fun id =>
      s.markers.isRetryAllowed (.list id) now

end State

end Noticeboard
