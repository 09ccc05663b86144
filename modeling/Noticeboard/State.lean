import Noticeboard.Board.Arrival
import Noticeboard.Board.Departure
import Noticeboard.ListIndex
import Noticeboard.Outbox
import Noticeboard.Retry
import Noticeboard.Subscriptions
import Noticeboard.View

/-!
# State

A `State` is all that an engine remembers: the boards, the announcement lists, the markers of failed
fetches, the subscriptions, the outbox and the identities that were deleted. Boards come into being
when a message or a subscriber first names them.
-/

namespace Noticeboard

/-- Why an operation was refused. -/
inductive EngineError where
  | validation (e : ValidationError)
  | list (e : ListError)
  | view (e : ViewError)
  | board (e : BoardError)
  | deletedIdentity (id : IdentityId)
  | unknownBoard (board : BoardName)
  | notQueued (id : MessageId)
  | alreadyPublished (id : MessageId)
  | snapshotVersion (found expected : UInt32)
deriving DecidableEq

/-- The text shown to the user. -/
def EngineError.message : EngineError → String
  | validation e => "Message rejected: " ++ e.message
  | list e => e.message
  | view e => e.message
  | board e => e.message
  | deletedIdentity id => "Identity " ++ id.toText ++ " has been deleted"
  | unknownBoard name => "Unknown board " ++ name.text
  | notQueued id => "Message " ++ id.toText ++ " is not queued"
  | alreadyPublished id => "Message " ++ id.toText ++ " is already published"
  | snapshotVersion found expected =>
    "Unsupported snapshot version " ++ toString found.toNat ++ ", expected " ++
      toString expected.toNat

/-- All that an engine remembers. -/
structure State where
  boards : BoardMap Board
  lists : ListIndex
  markers : Markers
  subscriptions : Subscriptions
  outbox : Outbox
  /-- Identities whose content is gone for good. -/
  deleted : Std.ExtTreeSet IdentityId
deriving DecidableEq

namespace State

/-- Nothing has happened yet. -/
def empty : State := ⟨∅, .empty, ∅, ∅, ∅, ∅⟩

/-- The board with a name; one without messages if it is not tracked. -/
def board (s : State) (name : BoardName) : Board := s.boards[name]?.getD (.empty name)

/-- Whether content by an identity is refused. -/
def isDeleted (s : State) (identity : IdentityId) : Bool := s.deleted.contains identity

/-- Whether some board stores a message. -/
def isStored (s : State) (id : MessageId) : Bool := s.boards.any fun _ g => g.contains id

/-- A stored message, from the first board that has it. -/
def message? (s : State) (id : MessageId) : Option Message :=
  s.boards.toList.findSome? fun (_, g) => g.messages[id]?

/-! ## Views -/

/-- Follows a board, which is tracked from now on. Also tells whether this is new. -/
def subscribe (s : State) (viewer : IdentityId) (name : BoardName) : State × Bool :=
  let (subscriptions, added) := ByViewer.add s.subscriptions viewer name
  ({ s with boards := s.boards.insertIfNew name (.empty name), subscriptions }, added)

/-- Stops following a board. Also tells whether it was followed. -/
def unsubscribe (s : State) (viewer : IdentityId) (name : BoardName) : State × Bool :=
  let (subscriptions, dropped) := ByViewer.drop s.subscriptions viewer name
  ({ s with subscriptions }, dropped)

/-- Looks at a board on behalf of a viewer who follows it. -/
def view {α : Type} (s : State) (viewer : IdentityId) (name : BoardName)
    (f : Board → Except ViewError α) : Except EngineError α :=
  if ByViewer.has s.subscriptions viewer name then (f (s.board name)).mapError .view
  else .error (.view (.notSubscribed viewer name))

/-- The threads of a board that a viewer sees. -/
def threads (s : State) (trust : Trust) (viewer : IdentityId) (name : BoardName) :
    Except EngineError (List ThreadLink) :=
  s.view viewer name fun g => .ok (g.threadLinks trust viewer)

/-- The replies of a thread that a viewer sees. -/
def replies (s : State) (trust : Trust) (viewer : IdentityId) (name : BoardName)
    (thread : MessageId) : Except EngineError (List ReplyLink) :=
  s.view viewer name fun g => g.replyLinks trust viewer thread

/-- The number of replies of a thread that a viewer sees. -/
def replyCount (s : State) (trust : Trust) (viewer : IdentityId) (name : BoardName)
    (thread : MessageId) : Except EngineError Nat :=
  (s.replies trust viewer name thread).map (·.length)

/-- The number of messages of a board that a viewer sees. -/
def messageCount (s : State) (trust : Trust) (viewer : IdentityId) (name : BoardName) :
    Except EngineError Nat :=
  s.view viewer name fun g => .ok (g.visibleCount trust viewer)

/-- The number of messages on a tracked board. -/
def boardCount (s : State) (name : BoardName) : Except EngineError Nat :=
  match s.boards[name]? with
  | some g => .ok g.messageCount
  | none => .error (.unknownBoard name)

end State

end Noticeboard
