import Noticeboard.Board.Basic

/-!
# Arrivals

`Board.ingest` files a message that targets the board and is not stored yet. Messages may come in
any order, so an arrival touches more than its own slot:

1. replies that wait for the message are detached from the ghost that stood in for it;
2. the message takes its place, as the root of its thread or as a reply;
3. the waiting replies are attached again, now below the message;
4. if the message closes a loop of named parents, the message that cuts the loop is moved.

`Board.rebuild` files a whole set of messages in the order of their ids.
-/

namespace Noticeboard

/-- Whether a message was new to a board. -/
inductive Outcome where
  | inserted
  | duplicate
deriving DecidableEq

/-- What the arrival of one message changed on one board. -/
structure IngestReport where
  board : BoardName
  message : MessageId
  outcome : Outcome
  /-- Ghosts made for parents that are not stored. -/
  ghostsCreated : List MessageId := []
  /-- The message filled at least one ghost. -/
  ghostResolved : Bool := false
  /-- Orphans that joined the thread which this message roots. -/
  orphansAdopted : Nat := 0
  /-- The message names a parent but no thread. -/
  inconsistent : Bool := false
  /-- The root of the message's thread has never been seen. -/
  orphaned : Bool := false
deriving DecidableEq

namespace IngestReport

/-- Whether the message was stored already. -/
def isDuplicate (r : IngestReport) : Bool := r.outcome == .duplicate

end IngestReport

namespace Board

/-- Enters a message into the index of replies and among the inconsistent messages, as it needs. -/
def note (g : Board) (m : Message) : Board :=
  match m.thread, m.parent with
  | some _, some p =>
    { g with repliesTo := g.repliesTo.alter p fun ids => some ((ids.getD ∅).insert m.id) }
  | none, some _ => { g with inconsistent := g.inconsistent.insert m.id }
  | _, none => g

/-- The tree of a thread; one without members and with unknown root if there is none yet. -/
def treeOrNew (g : Board) (thread : MessageId) : ThreadTree :=
  g.threads[thread]?.getD (.new thread .unknown)

/-- Files a message as the root of its thread. Also counts the orphans that it adopts. -/
def placeRoot (g : Board) (m : Message) : Board × Nat :=
  let t := g.treeOrNew m.id
  ({ g with
      messages := g.messages.insert m.id m
      threads := g.threads.insert m.id { t with root := .stored }
      deletedRoots := g.deletedRoots.erase m.id },
    if t.root == .unknown then t.replyCount else 0)

/-- Files a message as a reply in a thread. Also gives the ghost made for its parent. -/
def placeReply (g : Board) (m : Message) (thread : MessageId) : Board × Option MessageId :=
  let place := g.placement m thread
  let (t, made) := (g.treeOrNew thread).insertReply m.id ⟨m.created, m.author, place, ∅⟩
  ({ g with
      messages := g.messages.insert m.id m
      threads := g.threads.insert thread t },
    match made, place with
    | true, .node p => some p
    | _, _ => none)

/-- Files a message where it belongs and reports on it. -/
def place (g : Board) (m : Message) : Board × IngestReport :=
  match m.thread with
  | none =>
    let (g, adopted) := g.placeRoot m
    (g, { board := g.name, message := m.id, outcome := .inserted, orphansAdopted := adopted })
  | some thread =>
    let orphaned := (g.treeOrNew thread).root == .unknown
    let (g, ghost) := g.placeReply m thread
    (g, { board := g.name, message := m.id, outcome := .inserted,
          ghostsCreated := ghost.toList, orphaned })

/-- Files a message that is not stored. -/
def insert (g : Board) (m : Message) : Board × IngestReport :=
  let g := g.note m
  let waiting := g.waitingOn m.id
  let breaker := (g.breaker? m).filter fun b => b ≠ m.id ∧ b ∉ waiting
  let (g, resolved) := g.detachAll waiting
  let (g, report) := g.place m
  let (g, made) := g.attachAll waiting
  let g := breaker.elim g fun b => (g.relocate b).1
  (g, { report with
        ghostsCreated := report.ghostsCreated ++ made
        ghostResolved := resolved
        inconsistent := m.isInconsistent })

/-- Takes an arriving message. One whose id is stored changes nothing, whatever it holds. -/
def ingest (g : Board) (m : Message) : Except BoardError (Board × IngestReport) :=
  if !m.targets g.name then .error (.wrongBoard g.name m.id)
  else if g.contains m.id then
    .ok (g, { board := g.name, message := m.id, outcome := .duplicate })
  else .ok (g.insert m)

/-- The board after a message, or as it was if the message is refused. -/
def ingested (g : Board) (m : Message) : Board :=
  match g.ingest m with
  | .ok (g, _) => g
  | .error _ => g

/-- The board that holds those of the given messages that target it, with the given roots marked as
deleted. -/
def rebuild (name : BoardName) (messages : List Message) (deletedRoots : List MessageId) : Board :=
  let sorted := (messages.filter (·.targets name)).mergeSort fun a b => (compare a.id b.id).isLE
  deletedRoots.foldl (fun g t => (g.markDeletedRoot t).1) (sorted.foldl ingested (empty name))

end Board

end Noticeboard
