import Noticeboard.BoardName
import Noticeboard.MessageId
import Noticeboard.Time

/-!
# Messages and announcements

Authors publish messages, and announce them in numbered lists of references. A message without a
thread starts a thread of its own; any other message is a reply in the thread it names, and may name
the message it answers. `Message.sameContent` compares two messages in everything but the list that
announced them, which belongs to the delivery.
-/

namespace Noticeboard

/-! ## Announcement lists -/

/-- The name of one published batch of announcements. -/
structure ListId where
  author : IdentityId
  edition : UInt64
deriving DecidableEq, Inhabited

namespace ListId

instance : Ord ListId := ⟨compareLex (compareOn author) (compareOn edition)⟩

instance : Std.TransOrd ListId :=
  inferInstanceAs (Std.TransCmp (compareLex (compareOn author) (compareOn edition)))

instance : Std.LawfulEqOrd ListId where
  eq_of_compare {a b} h := by
    obtain ⟨ha, he⟩ := compareLex_eq_eq.1 h
    cases a; cases b
    exact congr (congrArg mk (Std.LawfulEqOrd.eq_of_compare (α := IdentityId) ha))
      (Std.LawfulEqOrd.eq_of_compare (α := UInt64) he)

/-- The written form: the short author and the edition. -/
def toText (id : ListId) : String := id.author.short ++ "/" ++ toString id.edition.toNat

end ListId

/-- A map keyed by list ids. -/
abbrev ListMap (β : Type) := Std.ExtTreeMap ListId β

/-- One announced message. -/
structure Announcement where
  message : MessageId
  board : BoardName
  announced : Timestamp
  /-- Where the message is expected to be found. -/
  hint : String
  downloaded : Bool
deriving DecidableEq

/-- A received batch of announcements. -/
structure MessageList where
  id : ListId
  references : List Announcement
  received : Timestamp
deriving DecidableEq

namespace MessageList

/-- Who published the list. -/
def author (l : MessageList) : IdentityId := l.id.author

/-- Whether every announced message has been downloaded. -/
def isComplete (l : MessageList) : Bool := l.references.all (·.downloaded)

/-- Whether the list announces a message. -/
def announces (l : MessageList) (id : MessageId) : Bool := l.references.any (·.message == id)

end MessageList

/-! ## Messages -/

/-- A file that goes with a message, known by its content key. -/
structure Attachment where
  key : String
  size : UInt64
deriving DecidableEq

/-- An immutable message. -/
structure Message where
  id : MessageId
  title : String
  body : String
  created : Timestamp
  attachments : List Attachment
  /-- The boards that the message is posted to. -/
  boards : BoardSet
  /-- The board that the author was reading when replying; it plays no part in placing the reply. -/
  replyToBoard : Option BoardName
  parent : Option MessageId
  thread : Option MessageId
  /-- The list that announced this delivery. -/
  announcedIn : Option ListId
deriving DecidableEq

namespace Message

/-- The first message of a thread. -/
def newThread (id : MessageId) (title body : String) (created : Timestamp) (boards : BoardSet) :
    Message where
  id; title; body; created; boards
  attachments := []
  replyToBoard := none
  parent := none
  thread := none
  announcedIn := none

/-- An untitled reply to `parent` in `thread`. -/
def newReply (id thread parent : MessageId) (body : String) (created : Timestamp)
    (boards : BoardSet) : Message where
  id; body; created; boards
  title := ""
  attachments := []
  replyToBoard := none
  parent := some parent
  thread := some thread
  announcedIn := none

/-- Who wrote the message. -/
def author (m : Message) : IdentityId := m.id.author

/-- Whether the message starts a thread. -/
def isThread (m : Message) : Bool := m.thread.isNone

/-- Whether the message names a parent but no thread. -/
def isInconsistent (m : Message) : Bool := m.thread.isNone && m.parent.isSome

/-- Whether the message is posted to a board. -/
def targets (m : Message) (board : BoardName) : Bool := m.boards.contains board

/-- Equality in everything but the announcing list. -/
def sameContent (a b : Message) : Bool :=
  decide ({ a with announcedIn := b.announcedIn } = b)

/-- Whether the message names itself as its parent or its thread. -/
def namesItself (m : Message) : Bool := m.parent == some m.id || m.thread == some m.id

end Message

end Noticeboard
