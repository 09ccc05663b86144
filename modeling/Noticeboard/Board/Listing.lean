import Noticeboard.Board.Basic

/-!
# Thread listings

A board lists its threads as entries:

* a thread whose root is stored or deleted is one entry with all its replies;
* a thread whose root has never been seen is split, one entry for each orphan that does not hang
  under a stored reply, holding what hangs below that orphan.

`Board.entries` lists them all in the order of their ids and `Board.entry` finds one.
-/

namespace Noticeboard

/-- How a thread entry came to be. -/
inductive EntryKind where
  | rooted
  /-- The root was deleted. -/
  | rootless
  | orphan
deriving DecidableEq

/-- One thread as listed by a board. -/
structure ThreadEntry where
  id : MessageId
  kind : EntryKind
  /-- The message on top; none if it was deleted. -/
  head : Option Message
  /-- The stored messages below. -/
  replies : List Message
deriving DecidableEq

namespace ThreadEntry

/-- The head, if there is one, and then the replies. -/
def messages (e : ThreadEntry) : List Message := e.head.toList ++ e.replies

/-- The number of messages below the head. -/
def replyCount (e : ThreadEntry) : Nat := e.replies.length

end ThreadEntry

namespace ThreadTree

/-- Whether a stored reply heads an entry of its own in a thread of unknown root. -/
def headsEntry (t : ThreadTree) (r : Reply) : Bool :=
  match r.parent with
  | .root => true
  | .node p => (t.ghost? p).isSome

end ThreadTree

namespace Board

/-- The entry of a thread whose root is stored or deleted. A root that names a parent counts as an
orphan. -/
def wholeEntry (g : Board) (t : ThreadTree) : ThreadEntry :=
  { id := t.id
    kind :=
      if t.root == .stored then
        if g.inconsistent.contains t.id then .orphan else .rooted
      else .rootless
    head := if t.root == .stored then g.messages[t.id]? else none
    replies := t.replies.filterMap fun (id, _) => g.messages[id]? }

/-- The entry that an orphan heads. -/
def orphanEntry? (g : Board) (t : ThreadTree) (head : MessageId) : Option ThreadEntry :=
  g.messages[head]?.map fun m =>
    { id := head
      kind := .orphan
      head := some m
      replies := (t.descendants head).filterMap (g.messages[·]?) }

/-- The entries of one tree. -/
def treeEntries (g : Board) (t : ThreadTree) : List ThreadEntry :=
  if t.root == .unknown then
    (t.replies.filter fun (_, r) => t.headsEntry r).filterMap fun (id, _) => g.orphanEntry? t id
  else [g.wholeEntry t]

/-- All entries, in the order of their threads. -/
def entries (g : Board) : List ThreadEntry := g.trees.flatMap g.treeEntries

/-- The entry of a whole thread. -/
def wholeEntry? (g : Board) (id : MessageId) : Option ThreadEntry :=
  (g.threads[id]?.filter (·.root != .unknown)).map g.wholeEntry

/-- The entry headed by an orphan, found by its thread. -/
def headedEntry? (g : Board) (id : MessageId) : Option ThreadEntry :=
  (g.treeOf? id).bind fun (_, t) =>
    if t.root == .unknown then
      ((t.reply? id).filter t.headsEntry).bind fun _ => g.orphanEntry? t id
    else none

/-- The entry with an id. -/
def entry (g : Board) (id : MessageId) : Except BoardError ThreadEntry :=
  match (g.wholeEntry? id).or (g.headedEntry? id) with
  | some e => .ok e
  | none => .error (.threadNotFound id)

/-- The number of replies in the entry with an id. -/
def replyCount (g : Board) (id : MessageId) : Except BoardError Nat :=
  (g.entry id).map (·.replyCount)

end Board

end Noticeboard
