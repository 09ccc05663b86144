import Noticeboard.Message

/-!
# Thread trees

A thread tree groups all messages of one board that name the same thread. Below the root stand
member slots: replies that are stored, and ghosts that stand in for parents which are not. A ghost
hangs directly under the root, since its own parent is unknown, and is dated by its earliest child.

`ThreadTree.link` and `ThreadTree.unlink` attach and detach one reply, making a ghost for a missing
parent and dropping one that is no longer needed. `ThreadTree.descendants` lists what hangs below a
slot, depth first.
-/

namespace Noticeboard

/-- Where a stored reply hangs. -/
inductive Link where
  /-- Directly under the root of the thread. -/
  | root
  /-- Under another member. -/
  | node (parent : MessageId)
deriving DecidableEq

/-- The slot of a stored reply. -/
structure Reply where
  created : Timestamp
  author : IdentityId
  parent : Link
  children : IdSet
deriving DecidableEq

/-- The slot of a parent that is not stored. -/
structure Ghost where
  /-- The earliest date among the waiting children. -/
  estimated : Timestamp
  children : IdSet
deriving DecidableEq

/-- A member of a thread tree. -/
inductive Slot where
  | reply (r : Reply)
  | ghost (g : Ghost)
deriving DecidableEq

namespace Slot

/-- The members that hang under this one. -/
def children : Slot → IdSet
  | reply r => r.children
  | ghost g => g.children

/-- Whether the slot stands in for a missing parent. -/
def isGhost : Slot → Bool
  | reply _ => false
  | ghost _ => true

/-- The reply in the slot. -/
def reply? : Slot → Option Reply
  | reply r => some r
  | ghost _ => none

/-- The ghost in the slot. -/
def ghost? : Slot → Option Ghost
  | reply _ => none
  | ghost g => some g

end Slot

/-- The state of the root of a thread. -/
inductive Root where
  /-- The root message is stored. -/
  | stored
  /-- The root message was deleted and its replies live on. -/
  | deleted
  /-- The root message has never been seen. -/
  | unknown
deriving DecidableEq

/-- All members of one thread on one board. -/
structure ThreadTree where
  id : MessageId
  root : Root
  /-- The members directly under the root, ghosts included. -/
  top : IdSet
  nodes : IdMap Slot
deriving DecidableEq

namespace ThreadTree

/-- A tree without members. -/
def new (id : MessageId) (root : Root) : ThreadTree := ⟨id, root, ∅, ∅⟩

/-- The stored reply in a slot. -/
def reply? (t : ThreadTree) (id : MessageId) : Option Reply := t.nodes[id]?.bind Slot.reply?

/-- The ghost in a slot. -/
def ghost? (t : ThreadTree) (id : MessageId) : Option Ghost := t.nodes[id]?.bind Slot.ghost?

/-- The stored replies, in the order of their ids. -/
def replies (t : ThreadTree) : List (MessageId × Reply) :=
  t.nodes.toList.filterMap fun (id, slot) => slot.reply?.map (id, ·)

/-- The ids of the ghosts, ascending. -/
def ghosts (t : ThreadTree) : List MessageId :=
  t.nodes.toList.filterMap fun (id, slot) => if slot.isGhost then some id else none

/-- The number of stored replies. -/
def replyCount (t : ThreadTree) : Nat := t.replies.length

/-- Whether there is no member; the root does not count. -/
def isEmpty (t : ThreadTree) : Bool := t.nodes.isEmpty

/-! ## Attaching and detaching -/

/-- Notes in the slot of a stored reply where it hangs. -/
def setParent (t : ThreadTree) (child : MessageId) (parent : Link) : ThreadTree :=
  match t.reply? child with
  | some r => { t with nodes := t.nodes.insert child (.reply { r with parent }) }
  | none => t

/-- Adds `child` under `parent`, which becomes a ghost if it has no slot. Also tells whether a ghost
was made. -/
def addChild (t : ThreadTree) (child : MessageId) (created : Timestamp) (parent : MessageId) :
    ThreadTree × Bool :=
  match t.nodes[parent]? with
  | some (.reply r) =>
    let slot := .reply { r with children := r.children.insert child }
    ({ t with nodes := t.nodes.insert parent slot }, false)
  | some (.ghost g) =>
    let slot := .ghost ⟨min g.estimated created, g.children.insert child⟩
    ({ t with nodes := t.nodes.insert parent slot }, false)
  | none =>
    let slot := .ghost ⟨created, {child}⟩
    ({ t with nodes := t.nodes.insert parent slot, top := t.top.insert parent }, true)

/-- Attaches `child` where `parent` says. Also tells whether a ghost was made. -/
def link (t : ThreadTree) (child : MessageId) (created : Timestamp) (parent : Link) :
    ThreadTree × Bool :=
  let t := t.setParent child parent
  match parent with
  | .root => ({ t with top := t.top.insert child }, false)
  | .node p => t.addChild child created p

/-- Stores a reply and attaches it where it says. Also tells whether a ghost was made. -/
def insertReply (t : ThreadTree) (id : MessageId) (r : Reply) : ThreadTree × Bool :=
  { t with nodes := t.nodes.insert id (.reply r) }.link id r.created r.parent

/-- The earliest date among stored replies of the tree. -/
def earliest? (t : ThreadTree) (ids : IdSet) : Option Timestamp :=
  (ids.toList.filterMap fun id => (t.reply? id).map (·.created)).min?

/-- Takes `child` from under `parent`. A ghost that loses its last child goes; one that keeps some
is dated anew. Also tells whether a ghost went. -/
def removeChild (t : ThreadTree) (child : MessageId) (parent : MessageId) : ThreadTree × Bool :=
  match t.nodes[parent]? with
  | some (.reply r) =>
    let slot := .reply { r with children := r.children.erase child }
    ({ t with nodes := t.nodes.insert parent slot }, false)
  | some (.ghost g) =>
    let children := g.children.erase child
    if children.isEmpty then
      ({ t with nodes := t.nodes.erase parent, top := t.top.erase parent }, true)
    else
      let slot := .ghost ⟨(t.earliest? children).getD g.estimated, children⟩
      ({ t with nodes := t.nodes.insert parent slot }, false)
  | none => (t, false)

/-- Detaches `child` from where `parent` says it hangs. Also tells whether a ghost went. -/
def unlink (t : ThreadTree) (child : MessageId) (parent : Link) : ThreadTree × Bool :=
  match parent with
  | .root => ({ t with top := t.top.erase child }, false)
  | .node p => t.removeChild child p

/-! ## Descendants -/

/-- The ids right below a slot, ascending. -/
def childrenOf (t : ThreadTree) (id : MessageId) : List MessageId :=
  match t.nodes[id]? with
  | some slot => slot.children.toList
  | none => []

/-- Visits the slots on a stack and all below them, top of the stack first, and lists the stored
ones. Fails if there are more than `steps` to visit. -/
def descend (t : ThreadTree) : Nat → List MessageId → Option (List MessageId)
  | _, [] => some []
  | 0, _ :: _ => none
  | steps + 1, id :: stack =>
    let rest := t.descend steps (t.childrenOf id ++ stack)
    if (t.reply? id).isSome then rest.map (id :: ·) else rest

/-- The stored replies below a slot, depth first. No slot hangs in two places, so there are no more
steps than slots. -/
def descendants (t : ThreadTree) (id : MessageId) : List MessageId :=
  (t.descend t.nodes.size (t.childrenOf id)).getD []

end ThreadTree

end Noticeboard
