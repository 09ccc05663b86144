import Noticeboard.State

/-!
# Deleting an identity

An identity is deleted for good: its messages and lists are removed, its outbox and subscriptions
are dropped, and whatever it wrote is refused from now on. Replies by others live on, under ghosts
and under deleted roots. Markers go with the identity's own content, and with ghosts that nothing
refers to any more.

`State.plan` says beforehand what the deletion would remove.
-/

namespace Noticeboard

/-- What a deletion would remove. -/
structure DeletionPlan where
  identity : IdentityId
  /-- Distinct messages, however many boards they are on. -/
  messages : Nat
  lists : Nat
  references : Nat
  /-- The boards that have some of the messages. -/
  boards : List BoardName
  threadsRooted : Nat
  threadsTouched : Nat
  queued : Nat
deriving DecidableEq

/-- Whether there is nothing to remove. -/
def DeletionPlan.isEmpty (p : DeletionPlan) : Bool :=
  p.messages == 0 && p.lists == 0 && p.queued == 0

/-- What a deletion removed. -/
structure DeletionReport where
  identity : IdentityId
  messagesRemoved : Nat
  listsRemoved : Nat
  referencesRemoved : Nat
  markersPruned : Nat
  subscriptionsRemoved : Nat
  outboxDropped : Nat
  /-- What changed on each board that had some of the messages. -/
  boards : BoardMap RemovalReport
deriving DecidableEq

/-- The deleted roots whose replies live on, by board. -/
def DeletionReport.deletedRoots (r : DeletionReport) : BoardMap IdSet :=
  (r.boards.filter fun _ removal => !removal.deletedRoots.isEmpty).map fun _ removal =>
    removal.deletedRoots

namespace State

/-- The boards with messages by an identity, and what it has there. -/
def footprints (s : State) (identity : IdentityId) : List (BoardName × Footprint) :=
  (s.boards.toList.map fun (name, g) => (name, g.footprint identity)).filter fun (_, f) =>
    f.messages != 0

/-- What the deletion of an identity would remove. -/
def plan (s : State) (identity : IdentityId) : DeletionPlan :=
  let fs := s.footprints identity
  let (lists, references) := s.lists.countOf identity
  let messages : IdSet := .ofList (s.boards.toList.flatMap fun (_, g) => g.authored identity)
  { identity, lists, references
    messages := messages.size
    boards := fs.map (·.1)
    threadsRooted := (fs.map (·.2.rooted)).foldl (· + ·) 0
    threadsTouched := (fs.map (·.2.touched.size)).foldl (· + ·) 0
    queued := s.outbox.countOf identity }

/-- Whether an id stands as a ghost on some board. -/
def isGhost (s : State) (id : MessageId) : Bool := s.boards.any fun _ g => g.hasGhost id

/-- Deletes an identity. -/
def deleteIdentity (s : State) (identity : IdentityId) : State × DeletionReport :=
  let results := s.boards.map fun _ g => g.removeAuthor identity
  let boards := results.map fun _ r => r.1
  let reports := (results.map fun _ r => r.2).filter fun _ r => !r.removed.isEmpty
  let removed : IdSet := .ofList (reports.values.flatMap (·.removed))
  let vanished : IdSet := .ofList (reports.values.flatMap (·.ghostsVanished.toList))
  let (lists, removedLists) := s.lists.removeAuthor identity
  let markers := s.markers.pruneAuthor identity
  let announced : IdSet := .ofList (lists.toFetch.map (·.message))
  let s' := { s with boards, lists, deleted := s.deleted.insert identity }
  let forgotten := vanished.filter fun id => !announced.contains id && !s'.isGhost id
  let markers' := markers.pruneMessages forgotten
  let outbox := s.outbox.removeAuthor identity
  ({ s' with
      markers := markers'
      subscriptions := s.subscriptions.erase identity
      outbox },
    { identity
      messagesRemoved := removed.size
      listsRemoved := removedLists.lists.length
      referencesRemoved := removedLists.references
      markersPruned := (s.markers.size - markers.size) + (markers.size - markers'.size)
      subscriptionsRemoved := (ByViewer.of s.subscriptions identity).size
      outboxDropped := s.outbox.size - outbox.size
      boards := reports })

end State

end Noticeboard
