import Noticeboard.Message

/-!
# Outbox

The local user's messages wait in the outbox until they are published. A queued message may be
withdrawn; a published one stays published.
-/

namespace Noticeboard

/-- How far an own message has come. -/
inductive OutboxState where
  | queued
  | published (location : String) (at_ : Timestamp)
deriving DecidableEq

/-- One of the local user's messages. -/
structure OutboxEntry where
  message : Message
  queuedAt : Timestamp
  state : OutboxState
  /-- How often publishing was tried; the count wraps around. -/
  attempts : UInt32
  /-- What went wrong the last time. -/
  lastError : Option String
deriving DecidableEq

namespace OutboxEntry

/-- Whether the message has been published. -/
def isPublished (e : OutboxEntry) : Bool :=
  match e.state with
  | .queued => false
  | .published .. => true

/-- The order in which messages are published: by the time they were queued, then by id. -/
def queuedBefore (a b : OutboxEntry) : Bool :=
  (compareLex (compareOn queuedAt) (compareOn (·.message.id)) a b).isLE

end OutboxEntry

/-- The local user's messages. -/
abbrev Outbox := IdMap OutboxEntry

namespace Outbox

/-- Queues a message, unless it is known. -/
def queue (o : Outbox) (m : Message) (now : Timestamp) : Outbox :=
  o.insertIfNew m.id
    { message := m, queuedAt := now, state := .queued, attempts := 0, lastError := none }

/-- The queued messages in the order in which to publish them. -/
def pending (o : Outbox) : List Message :=
  (((o.toList.map (·.2)).filter (!·.isPublished)).mergeSort OutboxEntry.queuedBefore).map
    (·.message)

/-- Whether a message is queued. -/
def isQueued (o : Outbox) (id : MessageId) : Bool := o[id]?.any (!·.isPublished)

/-- Records that a queued message was published. Also tells whether it was queued. -/
def markPublished (o : Outbox) (id : MessageId) (location : String) (now : Timestamp) :
    Outbox × Bool :=
  if o.isQueued id then
    (o.modify id fun e =>
      { e with state := .published location now, attempts := e.attempts + 1, lastError := none },
      true)
  else (o, false)

/-- Records that a queued message could not be published. Also tells whether it was queued. -/
def markFailed (o : Outbox) (id : MessageId) (error : String) : Outbox × Bool :=
  if o.isQueued id then
    (o.modify id fun e => { e with attempts := e.attempts + 1, lastError := some error }, true)
  else (o, false)

/-- Drops every message of an author. -/
def removeAuthor (o : Outbox) (author : IdentityId) : Outbox :=
  o.filter fun id _ => id.author != author

/-- The number of messages of an author. -/
def countOf (o : Outbox) (author : IdentityId) : Nat :=
  (o.filter fun id _ => id.author == author).size

end Outbox

end Noticeboard
