import Noticeboard.Board.Listing
import Noticeboard.Subscriptions

/-!
# What a viewer sees of a board

A viewer sees the messages of the authors it wants to read, and always its own. Threads are listed
by their latest visible message, most recent first; a thread without any is not listed. The visible
replies of a thread are listed oldest first.
-/

namespace Noticeboard

/-- Why a view cannot be shown. -/
inductive ViewError where
  | notSubscribed (viewer : IdentityId) (board : BoardName)
  | threadNotFound (board : BoardName) (thread : MessageId)
deriving DecidableEq

/-- The text shown to the user. -/
def ViewError.message : ViewError → String
  | notSubscribed viewer board =>
    "identity " ++ viewer.toText ++ " is not subscribed to board " ++ board.text
  | threadNotFound board thread =>
    "thread " ++ thread.toText ++ " not found in board " ++ board.text

/-- One thread as a viewer sees it. -/
structure ThreadLink where
  board : BoardName
  thread : MessageId
  kind : EntryKind
  /-- The message on top, if it is stored and visible. -/
  head : Option Message
  /-- The date of the latest visible message. -/
  lastActivity : Timestamp
  visibleReplies : Nat
deriving DecidableEq

namespace ThreadLink

/-- The title of the visible head. -/
def title? (l : ThreadLink) : Option String := l.head.map (·.title)

/-- Whether the root of the thread was deleted. -/
def isRootless (l : ThreadLink) : Bool := l.kind == .rootless

/-- The order in which threads are listed: latest activity first, then by id. -/
def listedBefore (a b : ThreadLink) : Bool :=
  (compareLex (fun a b => compare b.lastActivity a.lastActivity) (compareOn thread) a b).isLE

end ThreadLink

/-- One visible reply of a thread. -/
structure ReplyLink where
  board : BoardName
  thread : MessageId
  message : Message
deriving DecidableEq

/-- At most `limit` items from the one at `offset` on. -/
def page {α : Type} (items : List α) (offset limit : Nat) : List α := (items.drop offset).take limit

namespace Board

/-- Whether a viewer sees a message. -/
def isVisible (trust : Trust) (viewer : IdentityId) (m : Message) : Bool :=
  m.author == viewer || trust viewer m.author

/-- An entry as a viewer sees it; nothing if none of its messages is visible. -/
def link? (g : Board) (trust : Trust) (viewer : IdentityId) (e : ThreadEntry) : Option ThreadLink :=
  ((e.messages.filter (isVisible trust viewer)).map (·.created)).max?.map fun lastActivity =>
    { board := g.name
      thread := e.id
      kind := e.kind
      head := e.head.filter (isVisible trust viewer)
      lastActivity
      visibleReplies := e.replies.countP (isVisible trust viewer) }

/-- The threads that a viewer sees. -/
def threadLinks (g : Board) (trust : Trust) (viewer : IdentityId) : List ThreadLink :=
  (g.entries.filterMap (g.link? trust viewer)).mergeSort ThreadLink.listedBefore

/-- The order in which replies are listed: by date, then by id. -/
def writtenBefore (a b : Message) : Bool :=
  (compareLex (compareOn Message.created) (compareOn Message.id) a b).isLE

/-- The replies of a thread that a viewer sees. -/
def replyLinks (g : Board) (trust : Trust) (viewer : IdentityId) (thread : MessageId) :
    Except ViewError (List ReplyLink) :=
  match g.entry thread with
  | .error _ => .error (.threadNotFound g.name thread)
  | .ok e =>
    .ok (((e.replies.filter (isVisible trust viewer)).mergeSort writtenBefore).map fun m =>
      { board := g.name, thread := e.id, message := m })

/-- The number of stored messages that a viewer sees. -/
def visibleCount (g : Board) (trust : Trust) (viewer : IdentityId) : Nat :=
  g.storedMessages.countP (isVisible trust viewer)

end Board

end Noticeboard
