import Noticeboard.State.Receiving

/-!
# Sending

The local user's own messages are queued for publishing and shown on their boards at once. As long
as one is queued it can be taken back: it leaves its boards, where replies to it stay under a ghost
or as orphans.
-/

namespace Noticeboard

namespace State

/-- Queues an own message and files it. -/
def queueOwn (s : State) (limits : Limits) (m : Message) (now : Timestamp) :
    State × Except EngineError Arrival :=
  if s.isDeleted m.author then (s, .error (.deletedIdentity m.author))
  else
    match m.validate (some m.author) limits with
    | .error e => (s, .error (.validation e))
    | .ok () => { s with outbox := s.outbox.queue m now }.receive limits m (some m.author)

/-- Takes a message off every board; its replies become orphans. -/
def takeDown (s : State) (id : MessageId) : State :=
  { s with boards := s.boards.map fun _ g => ((g.remove? id false).map (·.1)).getD g }

/-- Takes back a queued message. -/
def unsend (s : State) (id : MessageId) : State × Except EngineError Unit :=
  match s.outbox[id]? with
  | none => (s, .error (.notQueued id))
  | some e =>
    if e.isPublished then (s, .error (.alreadyPublished id))
    else ({ s with outbox := s.outbox.erase id }.takeDown id, .ok ())

/-- Records that a queued message was published. Also tells whether it was queued. -/
def markPublished (s : State) (id : MessageId) (location : String) (now : Timestamp) :
    State × Bool :=
  let (outbox, changed) := s.outbox.markPublished id location now
  ({ s with outbox }, changed)

/-- Records that a queued message could not be published. Also tells whether it was queued. -/
def markPublishFailed (s : State) (id : MessageId) (error : String) : State × Bool :=
  let (outbox, changed) := s.outbox.markFailed id error
  ({ s with outbox }, changed)

end State

end Noticeboard
