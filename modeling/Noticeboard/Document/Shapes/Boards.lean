import Noticeboard.Document.Shapes
import Noticeboard.View

/-!
# Shapes of threads

Thread trees as boards keep them, and thread and reply links as viewers see them. A member of a tree
is written with its id.
-/

namespace Noticeboard

/-! ## Trees -/

instance : Shape Link where
  toValue
    | .root => .ofText "Root"
    | .node p => .choice "Node" (toValue p)
  ofValue? v :=
    match v.choice? with
    | some ("Node", some content) => (Shape.ofValue? content).map .node
    | _ => if v.bare? = some "Root" then some .root else none

instance : Shape (MessageId × Reply) where
  toValue p := .record [
    ("id", toValue p.1), ("created", toValue p.2.created), ("author", toValue p.2.author),
    ("parent", toValue p.2.parent), ("children", toValue p.2.children)]
  ofValue? v := do
    let fs ← v.fields? ["id", "created", "author", "parent", "children"] .exact
    return (← fs.get? "id", {
      created := ← fs.get? "created"
      author := ← fs.get? "author"
      parent := ← fs.get? "parent"
      children := ← fs.get? "children" })

instance : Shape (MessageId × Ghost) where
  toValue p := .record [
    ("id", toValue p.1), ("estimated_date", toValue p.2.estimated),
    ("children", toValue p.2.children)]
  ofValue? v := do
    let fs ← v.fields? ["id", "estimated_date", "children"] .exact
    return (← fs.get? "id", ⟨← fs.get? "estimated_date", ← fs.get? "children"⟩)

instance : Shape (MessageId × Slot) where
  toValue
    | (id, .reply r) => .choice "Resolved" (toValue (id, r))
    | (id, .ghost g) => .choice "Ghost" (toValue (id, g))
  ofValue? v :=
    match v.choice? with
    | some ("Resolved", some content) => (Shape.ofValue? content).map fun (id, r) => (id, .reply r)
    | some ("Ghost", some content) => (Shape.ofValue? content).map fun (id, g) => (id, .ghost g)
    | _ => none

instance : Shape Root :=
  .ofNames (fun | .stored => "Resolved" | .deleted => "Ghost" | .unknown => "Unknown")
    [.stored, .deleted, .unknown]

/-- Members are found by their ids, which are records, so only a tree without members is read. -/
instance : Shape ThreadTree where
  toValue t := .record [
    ("id", toValue t.id), ("root", toValue t.root), ("top", toValue t.top),
    ("nodes", .object (t.nodes.toList.map fun (id, s) => (some id.toText, toValue (id, s))))]
  ofValue? v := do
    let fs ← v.fields? ["id", "root", "top", "nodes"] .exact
    let .object [] ← fs.lookup "nodes" | none
    return { id := ← fs.get? "id", root := ← fs.get? "root", top := ← fs.get? "top", nodes := ∅ }

/-! ## Links -/

instance : Shape EntryKind :=
  .ofNames (fun | .rooted => "Resolved" | .rootless => "GhostRoot" | .orphan => "Orphan")
    [.rooted, .rootless, .orphan]

instance : Shape ThreadLink where
  toValue l := .record [
    ("board", toValue l.board), ("thread_id", toValue l.thread), ("kind", toValue l.kind),
    ("head", toValue l.head), ("last_activity", toValue l.lastActivity),
    ("visible_replies", toValue l.visibleReplies)]
  ofValue? v := do
    let fs ← v.fields? ["board", "thread_id", "kind", "head", "last_activity",
      "visible_replies"] .exact
    return {
      board := ← fs.get? "board"
      thread := ← fs.get? "thread_id"
      kind := ← fs.get? "kind"
      head := ← fs.get? "head"
      lastActivity := ← fs.get? "last_activity"
      visibleReplies := ← fs.get? "visible_replies" }

instance : Shape ReplyLink where
  toValue l := .record [
    ("board", toValue l.board), ("thread_id", toValue l.thread), ("message", toValue l.message)]
  ofValue? v := do
    let fs ← v.fields? ["board", "thread_id", "message"] .exact
    return ⟨← fs.get? "board", ← fs.get? "thread_id", ← fs.get? "message"⟩

end Noticeboard
