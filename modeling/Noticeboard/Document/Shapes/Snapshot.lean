import Noticeboard.Document.Shapes
import Noticeboard.State.Snapshot

/-!
# Shape of snapshots

A snapshot is one record. Subscriptions are kept by viewer and own messages by id, and neither is
text, so that such a table is read back only if it is empty.
-/

namespace Noticeboard

instance : Shape Subscriptions where
  toValue s := .record [("by_viewer", (Shape.closed IdentityId.toText).toValue s)]
  ofValue? v := do
    let fs ← v.fields? ["by_viewer"] .exact
    (Shape.closed IdentityId.toText).ofValue? (← fs.lookup "by_viewer")

instance : Shape Outbox where
  toValue o := .record [("entries", (Shape.closed MessageId.toText).toValue o)]
  ofValue? v := do
    let fs ← v.fields? ["entries"] .exact
    (Shape.closed MessageId.toText).ofValue? (← fs.lookup "entries")

instance : Shape (BoardMap (List MessageId)) := .table (·.text) BoardName.ofText?

instance : Shape Snapshot where
  toValue p := .record [
    ("version", toValue p.version), ("taken_at", toValue p.takenAt), ("boards", toValue p.boards),
    ("messages", toValue p.messages), ("ghost_threads", toValue p.deletedRoots),
    ("lists", toValue p.lists), ("markers", toValue p.markers),
    ("subscriptions", toValue p.subscriptions), ("outbox", toValue p.outbox),
    ("deleted_identities", toValue p.deleted)]
  ofValue? v := do
    let fs ← v.fields? ["version", "taken_at", "boards", "messages", "ghost_threads", "lists",
      "markers", "subscriptions", "outbox", "deleted_identities"] .exact
    return {
      version := ← fs.get? "version"
      takenAt := ← fs.get? "taken_at"
      boards := ← fs.get? "boards"
      messages := ← fs.get? "messages"
      deletedRoots := ← fs.get? "ghost_threads"
      lists := ← fs.get? "lists"
      markers := ← fs.get? "markers"
      subscriptions := ← fs.get? "subscriptions"
      outbox := ← fs.get? "outbox"
      deleted := ← fs.get? "deleted_identities" }

end Noticeboard
