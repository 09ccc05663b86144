import Noticeboard.State

/-!
# Snapshots

A snapshot holds what is needed to bring a state back. The threads of a board are not kept: they
follow from the messages on it and the roots that were deleted, and are built anew.
-/

namespace Noticeboard

/-- What is kept of a state. -/
structure Snapshot where
  version : UInt32
  takenAt : Timestamp
  /-- The tracked boards. -/
  boards : List BoardName
  /-- Every stored message once. -/
  messages : List Message
  /-- The deleted roots of each board that has some. -/
  deletedRoots : BoardMap (List MessageId)
  lists : List MessageList
  markers : List (Subject × Marker)
  subscriptions : Subscriptions
  outbox : Outbox
  deleted : List IdentityId
deriving DecidableEq

namespace Snapshot

/-- The version that is written and read. -/
def currentVersion : UInt32 := 1

/-- A snapshot of nothing. -/
def empty : Snapshot := ⟨0, 0, [], [], ∅, [], [], ∅, ∅, []⟩

end Snapshot

namespace State

/-- The messages on all boards, each as the first board has it. -/
def allMessages (s : State) : IdMap Message :=
  s.boards.toList.foldl
    (fun all (_, g) => g.messages.toList.foldl (fun all (id, m) => all.insertIfNew id m) all) ∅

/-- Takes a snapshot. -/
def snapshot (s : State) (now : Timestamp) : Snapshot where
  version := Snapshot.currentVersion
  takenAt := now
  boards := s.boards.keys
  messages := s.allMessages.toList.map (·.2)
  deletedRoots := (s.boards.filter fun _ g => !g.deletedRoots.isEmpty).map fun _ g =>
    g.deletedRoots.toList
  lists := s.lists.lists.toList.map (·.2)
  markers := s.markers.toList
  subscriptions := s.subscriptions
  outbox := s.outbox
  deleted := s.deleted.toList

/-- The boards that a snapshot names in any way. -/
def boardsIn (p : Snapshot) : BoardSet :=
  .ofList (p.boards ++ p.deletedRoots.keys ++ p.messages.flatMap (·.boards.toList))

/-- The boards built from a snapshot. -/
def rebuiltBoards (p : Snapshot) : BoardMap Board :=
  .ofList ((boardsIn p).toList.map fun name =>
    (name, Board.rebuild name p.messages (p.deletedRoots[name]?.getD [])))

/-- The lists of a snapshot put back, with every stored message counted as downloaded. -/
def restoredLists (ix : ListIndex) (p : Snapshot) : ListIndex :=
  p.messages.foldl (fun ix m => (ix.markDownloaded m.id).1) (p.lists.foldl ListIndex.restore ix)

/-- Brings back a snapshot. Lists and deletions are added to what is there and all else is
replaced, which is meant for an empty state. -/
def restore (s : State) (p : Snapshot) : State × Except EngineError Unit :=
  if p.version ≠ Snapshot.currentVersion then
    (s, .error (.snapshotVersion p.version Snapshot.currentVersion))
  else
    ({ boards := rebuiltBoards p
       lists := restoredLists s.lists p
       markers := .ofEntries p.markers
       subscriptions := p.subscriptions
       outbox := p.outbox
       deleted := s.deleted.insertMany p.deleted }, .ok ())

end State

end Noticeboard
