import Noticeboard.Config
import Noticeboard.State.Deleting
import Noticeboard.State.Sending
import Noticeboard.State.Snapshot

/-!
# Engine

An engine is a `State` with what surrounds it: the configuration, the trust of the viewers, the
clock, and counters of what has happened. Its operations are those of the state, with the limits and
the time filled in and the counters kept.
-/

namespace Noticeboard

/-! ## Counters -/

/-- Counts of what has happened, and two levels as they were last recorded. -/
structure Counters where
  ingested : Nat := 0
  duplicates : Nat := 0
  ghostsCreated : Nat := 0
  ghostsResolved : Nat := 0
  orphansAdopted : Nat := 0
  inconsistent : Nat := 0
  rejectedMessages : Nat := 0
  rejectedLists : Nat := 0
  messagesNotFound : Nat := 0
  messagesTransient : Nat := 0
  listsNotFound : Nat := 0
  listsTransient : Nat := 0
  deletions : Nat := 0
  /-- How often the filing of a message was timed. -/
  timings : Nat := 0
  /-- The number of boards when one was last added or all were replaced. -/
  boardsTracked : Nat := 0
  /-- The number of markers when they were last written or reported. -/
  fetchMarkers : Nat := 0
deriving DecidableEq

namespace Counters

/-- Counts the filing of a message on one board. -/
def ingest (c : Counters) (r : IngestReport) : Counters :=
  if r.isDuplicate then { c with duplicates := c.duplicates + 1 }
  else
    { c with
      ingested := c.ingested + 1
      ghostsCreated := c.ghostsCreated + r.ghostsCreated.length
      orphansAdopted := c.orphansAdopted + r.orphansAdopted
      ghostsResolved := c.ghostsResolved + if r.ghostResolved then 1 else 0
      inconsistent := c.inconsistent + if r.inconsistent then 1 else 0 }

/-- Counts a failed fetch. -/
def failure (c : Counters) (s : Subject) (reason : FetchReason) : Counters :=
  match s, reason with
  | .message _, .notFound => { c with messagesNotFound := c.messagesNotFound + 1 }
  | .message _, .transient => { c with messagesTransient := c.messagesTransient + 1 }
  | .list _, .notFound => { c with listsNotFound := c.listsNotFound + 1 }
  | .list _, .transient => { c with listsTransient := c.listsTransient + 1 }

/-- Records the number of boards if it has changed. -/
def boards (c : Counters) (before after : State) : Counters :=
  if before.boards.size = after.boards.size then c
  else { c with boardsTracked := after.boards.size }

/-- Records the number of markers. -/
def markers (c : Counters) (s : State) : Counters := { c with fetchMarkers := s.markers.size }

/-- Counts the arrival of a message. -/
def arrival (c : Counters) (before after : State) : Except EngineError Arrival → Counters
  | .error (.validation _) => { c with rejectedMessages := c.rejectedMessages + 1 }.markers after
  | .error _ => c
  | .ok a =>
    ({ (a.boards.foldl ingest c).boards before after with timings := c.timings + 1 }).markers after

end Counters

/-! ## Engines -/

/-- A state with its surroundings. -/
structure Engine where
  config : EngineConfig
  trust : Trust
  now : Timestamp
  state : State
  counters : Counters

/-- What an engine holds, in numbers. -/
structure Status where
  boards : Nat
  messages : Nat
  ghosts : Nat
  deletedRoots : Nat
  orphans : Nat
  lists : Nat
  toFetch : Nat
  markers : Nat
  subscriptions : Nat
  outbox : Nat
  deleted : Nat
deriving DecidableEq

namespace Engine

/-- An engine to which nothing has happened. -/
def new (config : EngineConfig) (trust : Trust) (now : Timestamp) : Engine where
  config; trust; now
  state := .empty
  counters := {}

/-- A fresh engine in the same surroundings; the counters go on. -/
def fresh (e : Engine) : Engine := { e with state := .empty }

/-- Sets the clock. -/
def atTime (e : Engine) (now : Timestamp) : Engine := { e with now }

/-! ### Content -/

/-- Takes a downloaded message, fetched as one by `announcedBy`. -/
def receive (e : Engine) (m : Message) (announcedBy : Option IdentityId) :
    Engine × Except EngineError Arrival :=
  let (s, r) := e.state.receive e.config.validation m announcedBy
  ({ e with state := s, counters := e.counters.arrival e.state s r }, r)

/-- Takes a downloaded list and gives the messages to fetch because of it. -/
def receiveList (e : Engine) (id : ListId) (references : List Announcement) (received : Timestamp) :
    Engine × Except EngineError (List MessageId) :=
  let (s, r) := e.state.receiveList e.config.lists id references received
  let counters := match r with
    | .ok _ => e.counters.markers s
    | .error (.list _) => { e.counters with rejectedLists := e.counters.rejectedLists + 1 }
    | .error _ => e.counters
  ({ e with state := s, counters }, r)

/-- Records that fetching a subject failed. -/
def fail (e : Engine) (subject : Subject) (reason : FetchReason) : Engine :=
  let s := { e.state with
    markers := e.state.markers.fail e.config.retry subject reason e.now }
  { e with state := s, counters := (e.counters.failure subject reason).markers s }

/-- Sweeps the markers. -/
def sweep (e : Engine) : Engine × Sweep :=
  let (markers, r) := e.state.markers.sweep e.config.retry e.now
  let s := { e.state with markers }
  ({ e with state := s, counters := e.counters.markers s }, r)

/-- Gives up on a message whose content was refused. -/
def discard (e : Engine) (id : MessageId) : Engine :=
  let s := e.state.settle id
  { e with state := s, counters := e.counters.markers s }

/-- Forgets failed fetches of all messages but those that `keep` accepts. -/
def retainMarkers (e : Engine) (keep : MessageId → Bool) : Engine :=
  let s := { e.state with markers := e.state.markers.retainMessages keep }
  { e with state := s, counters := e.counters.markers s }

/-- The messages to fetch now. -/
def toFetch (e : Engine) : List MessageId := e.state.toFetch e.now

/-- The lists to fetch now. -/
def listsToFetch (e : Engine) : List ListId := e.state.listsToFetch e.config.lists e.now

/-! ### Identities and viewers -/

/-- Deletes an identity. -/
def deleteIdentity (e : Engine) (identity : IdentityId) : Engine × DeletionReport :=
  let (s, r) := e.state.deleteIdentity identity
  ({ e with
      state := s
      counters := { e.counters with deletions := e.counters.deletions + 1 }.markers s }, r)

/-- Follows a board. Also tells whether this is new. -/
def subscribe (e : Engine) (viewer : IdentityId) (name : BoardName) : Engine × Bool :=
  let (s, added) := e.state.subscribe viewer name
  ({ e with state := s, counters := e.counters.boards e.state s }, added)

/-- Stops following a board. Also tells whether it was followed. -/
def unsubscribe (e : Engine) (viewer : IdentityId) (name : BoardName) : Engine × Bool :=
  let (s, dropped) := e.state.unsubscribe viewer name
  ({ e with state := s }, dropped)

/-! ### Own messages -/

/-- Queues an own message and files it. -/
def queueOwn (e : Engine) (m : Message) : Engine × Except EngineError Arrival :=
  let (s, r) := e.state.queueOwn e.config.validation m e.now
  let counters := match r with
    | .ok _ => e.counters.arrival e.state s r
    | .error _ => e.counters
  ({ e with state := s, counters }, r)

/-- Takes back a queued message. -/
def unsend (e : Engine) (id : MessageId) : Engine × Except EngineError Unit :=
  let (s, r) := e.state.unsend id
  ({ e with state := s }, r)

/-- Records that a queued message was published. Also tells whether it was queued. -/
def markPublished (e : Engine) (id : MessageId) (location : String) : Engine × Bool :=
  let (s, changed) := e.state.markPublished id location e.now
  ({ e with state := s }, changed)

/-- Records that a queued message could not be published. Also tells whether it was queued. -/
def markPublishFailed (e : Engine) (id : MessageId) (error : String) : Engine × Bool :=
  let (s, changed) := e.state.markPublishFailed id error
  ({ e with state := s }, changed)

/-! ### Snapshots and status -/

/-- Takes a snapshot. -/
def snapshot (e : Engine) : Snapshot := e.state.snapshot e.now

/-- Brings back a snapshot. -/
def restore (e : Engine) (p : Snapshot) : Engine × Except EngineError Unit :=
  match e.state.restore p with
  | (s, .ok ()) =>
    let counters := { e.counters with boardsTracked := s.boards.size }.markers s
    ({ e with state := s, counters }, .ok ())
  | (s, .error error) => ({ e with state := s }, .error error)

/-- The numbers of a state. -/
def statusOf (s : State) (now : Timestamp) : Status where
  boards := s.boards.size
  messages := s.allMessages.size
  ghosts := (s.boards.values.map (·.ghostIds.size)).foldl (· + ·) 0
  deletedRoots := (s.boards.values.map (·.deletedRoots.size)).foldl (· + ·) 0
  orphans := (s.boards.values.map (·.absoluteOrphans.size)).foldl (· + ·) 0
  lists := s.lists.lists.size
  toFetch := (s.toFetch now).length
  markers := s.markers.size
  subscriptions := ByViewer.total s.subscriptions
  outbox := s.outbox.size
  deleted := s.deleted.size

/-- The numbers of an engine, which also records the number of markers. -/
def status (e : Engine) : Engine × Status :=
  ({ e with counters := e.counters.markers e.state }, statusOf e.state e.now)

end Engine

end Noticeboard
