import Noticeboard.Validation

/-!
# Events

Events travel on a bus. Arrivals and failures come from the content store and deletions from the
manager of identities; the engine takes these as its inputs, and answers with notifications about
the boards that changed. A subscriber filters events by topic and by source.
-/

namespace Noticeboard

/-- What happened. -/
inductive Event where
  | messageReceived (message : Message) (announcedBy : Option IdentityId)
  | listReceived (list : ListId) (references : List Announcement) (received : Timestamp)
  | messageFetchFailed (message : MessageId) (reason : FetchReason)
  | listFetchFailed (list : ListId) (reason : FetchReason)
  | identityDeleted (identity : IdentityId)
  | boardUpdated (board : BoardName) (message : MessageId)
  | ghostResolved (board : BoardName) (message : MessageId)
deriving DecidableEq

/-- What an event is about. -/
inductive Topic where
  | arrivals
  | fetchFailures
  | identities
  | notifications
  /-- In a filter: any topic. -/
  | all
deriving DecidableEq

/-- The name of the topic. -/
def Topic.name : Topic → String
  | arrivals => "Arrivals"
  | fetchFailures => "FetchFailures"
  | identities => "Identities"
  | notifications => "Notifications"
  | all => "All"

/-- Who publishes an event. -/
inductive Source where
  | contentStore
  | identityManager
  | engine
deriving DecidableEq

namespace Event

/-- What the event is about. -/
def topic : Event → Topic
  | messageReceived .. | listReceived .. => .arrivals
  | messageFetchFailed .. | listFetchFailed .. => .fetchFailures
  | identityDeleted _ => .identities
  | boardUpdated .. | ghostResolved .. => .notifications

/-- Who publishes the event. -/
def source : Event → Source
  | messageReceived .. | listReceived .. | messageFetchFailed .. | listFetchFailed .. =>
    .contentStore
  | identityDeleted _ => .identityManager
  | boardUpdated .. | ghostResolved .. => .engine

end Event

/-- The events that a subscriber wants. An empty list of topics or sources does not restrict. -/
structure Filter where
  topics : List Topic := []
  sources : List Source := []
deriving DecidableEq

namespace Filter

/-- What the engine takes in. -/
def engineInputs : Filter := { topics := [.arrivals, .fetchFailures, .identities] }

/-- Whether an event passes. -/
def accepts (f : Filter) (e : Event) : Bool :=
  (f.topics.isEmpty || f.topics.contains .all || f.topics.contains e.topic) &&
    (f.sources.isEmpty || f.sources.contains e.source)

/-- The written form of the topics. -/
def topicsText (f : Filter) : String :=
  "[" ++ ", ".intercalate (f.topics.map (·.name)) ++ "]"

end Filter

end Noticeboard
