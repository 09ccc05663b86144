import Noticeboard.Board.Basic

/-!
# Departures

`Board.remove?` takes a stored message away. Where replies depend on it, something stays: a reply
with children leaves a ghost that holds them, and a root with replies leaves either a thread with a
deleted root or a group of orphans, as the caller asks. If the message was on a loop of named
parents, the message that cut the loop returns to its parent.

`Board.removeAuthor` takes away everything by one author, and `Board.footprint` says beforehand what
that would touch.
-/

namespace Noticeboard

/-- What a removal changed on one board. -/
structure RemovalReport where
  /-- The messages taken away. -/
  removed : List MessageId := []
  /-- Removed replies that left a ghost behind. -/
  ghostsLeft : IdSet := ∅
  /-- Removed roots whose replies live on. -/
  deletedRoots : IdSet := ∅
  /-- Threads of which nothing remains. -/
  threadsRemoved : IdSet := ∅
  /-- Ghosts that are no longer needed. -/
  ghostsVanished : IdSet := ∅
deriving DecidableEq

namespace RemovalReport

/-- One removal after another. -/
def append (a b : RemovalReport) : RemovalReport where
  removed := a.removed ++ b.removed
  ghostsLeft := a.ghostsLeft ∪ b.ghostsLeft
  deletedRoots := a.deletedRoots ∪ b.deletedRoots
  threadsRemoved := a.threadsRemoved ∪ b.threadsRemoved
  ghostsVanished := a.ghostsVanished ∪ b.ghostsVanished

end RemovalReport

/-- What an author has on one board. -/
structure Footprint where
  messages : Nat
  /-- How many of them start a thread. -/
  rooted : Nat
  /-- The threads that they are in. -/
  touched : IdSet
deriving DecidableEq

namespace Board

/-- The thread a message is filed under, which is its own id if it starts one. -/
def treeKey (m : Message) : MessageId := m.thread.getD m.id

/-- Takes a message out of the index of replies. -/
def unnote (g : Board) (m : Message) : Board :=
  match m.thread, m.parent with
  | some _, some p =>
    { g with
        repliesTo := g.repliesTo.alter p fun ids =>
          ids.bind fun ids =>
            let ids := ids.erase m.id
            if ids.isEmpty then none else some ids }
  | _, _ => g

/-- Clears the root of a thread. With `tombstone` the thread of surviving replies counts as deleted;
also tells whether it does. -/
def clearRoot (g : Board) (id : MessageId) (tombstone : Bool) : Board × Bool :=
  match g.threads[id]? with
  | none => (g, false)
  | some t =>
    if tombstone && !t.isEmpty then
      ({ g with
          threads := g.threads.insert id { t with root := .deleted }
          deletedRoots := g.deletedRoots.insert id }, true)
    else ({ g with threads := g.threads.insert id { t with root := .unknown } }, false)

/-- Clears the slot of a stored reply. -/
def clearReply (g : Board) (id thread : MessageId) : Board :=
  match g.threads[thread]? with
  | none => g
  | some t =>
    if (t.reply? id).isSome then
      { g with threads := g.threads.insert thread { t with nodes := t.nodes.erase id } }
    else g

/-- Clears the place of a message. Also tells whether its thread now counts as deleted. -/
def clearPlace (g : Board) (m : Message) (tombstone : Bool) : Board × Bool :=
  match m.thread with
  | none => g.clearRoot m.id tombstone
  | some thread => (g.clearReply m.id thread, false)

/-- Whether a tree has neither members nor a stored root. -/
def isAbandoned (g : Board) (key : MessageId) : Bool :=
  g.threads[key]?.any fun t => t.root != .stored && t.isEmpty

/-- Drops a tree. -/
def dropTree (g : Board) (key : MessageId) : Board :=
  { g with threads := g.threads.erase key, deletedRoots := g.deletedRoots.erase key }

/-- The message that has to return to its parent when `m` leaves: the one that cut a loop through
`m`, unless it is `m` or a reply to `m`, which moves anyhow. -/
def releasedBy? (g : Board) (m : Message) : Option MessageId :=
  (g.breaker? m).filter fun b => b ≠ m.id ∧ (g.messages[b]?.bind (·.parent)) ≠ some m.id

/-- Takes away a stored message. -/
def removeStored (g : Board) (m : Message) (tombstone : Bool) : Board × RemovalReport :=
  let ghostsBefore := g.ghostIds
  let key := treeKey m
  let released := g.releasedBy? m
  let g := if m.isThread then g else (g.detach m.id).1
  let g := { g with messages := g.messages.erase m.id, inconsistent := g.inconsistent.erase m.id }
  let g := g.unnote m
  let (g, deleted) := g.clearPlace m tombstone
  let (g, left) := g.relocateAll (g.waitingOn m.id)
  let g := released.elim g fun b => (g.relocate b).1
  let abandoned := g.isAbandoned key
  let g := if abandoned then g.dropTree key else g
  (g,
    { removed := [m.id]
      ghostsLeft := .ofList left
      deletedRoots := if deleted && !abandoned then {key} else ∅
      threadsRemoved := if abandoned then {key} else ∅
      ghostsVanished := ghostsBefore \ g.ghostIds })

/-- Takes away the message with an id, if it is stored. With `tombstone`, replies of a root live on
as a deleted thread, otherwise as orphans. -/
def remove? (g : Board) (id : MessageId) (tombstone : Bool) : Option (Board × RemovalReport) :=
  g.messages[id]?.map (g.removeStored · tombstone)

/-- The stored messages of an author, ascending. -/
def authored (g : Board) (author : IdentityId) : List MessageId :=
  g.messages.keys.filter (·.author == author)

/-- Takes away several messages one after another. -/
def removeAll (g : Board) (ids : List MessageId) : Board × RemovalReport :=
  ids.foldl
    (fun (g, report) id =>
      match g.remove? id true with
      | some (g, r) => (g, report.append r)
      | none => (g, report))
    (g, {})

/-- Takes away everything by an author. The report says what came of it in the end. -/
def removeAuthor (g : Board) (author : IdentityId) : Board × RemovalReport :=
  let ghostsBefore := g.ghostIds
  let (g, report) := g.removeAll (g.authored author)
  let ghosts := g.ghostIds
  (g,
    { removed := report.removed
      ghostsLeft := report.ghostsLeft.filter ghosts.contains
      deletedRoots := report.deletedRoots.filter g.deletedRoots.contains
      threadsRemoved := report.threadsRemoved.filter fun t => !g.threads.contains t
      ghostsVanished := ghostsBefore \ ghosts })

/-- What the removal of an author would touch. -/
def footprint (g : Board) (author : IdentityId) : Footprint :=
  let ms := g.storedMessages.filter (·.author == author)
  { messages := ms.length
    rooted := ms.countP (·.isThread)
    touched := .ofList (ms.map treeKey) }

end Board

end Noticeboard
