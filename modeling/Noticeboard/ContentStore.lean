import Noticeboard.Validation

/-!
# Content stores

Content is fetched from and published to a store, which may change with every call. `ContentStore`
is the pair of calls over whatever the store remembers. `MemoryStore` keeps messages in memory; it
can be made to fail for some messages, and to refuse publishing while it is offline. In front of any
store `ContentStore.scripted` fixes the answers for some messages.
-/

namespace Noticeboard

/-- How to talk to a store that remembers a `σ`. -/
structure ContentStore (σ : Type) where
  fetch : σ → MessageId → σ × Except FetchError Message
  /-- Gives the place where the message can be found. -/
  publish : σ → Message → σ × Except FetchError String

/-- A store that gives fixed answers for some messages, and asks another store for the rest. -/
def ContentStore.scripted {σ : Type} (store : ContentStore σ) :
    ContentStore (IdMap (Except FetchError Message) × σ) where
  fetch s id :=
    match s.1[id]? with
    | some answer => (s, answer)
    | none =>
      let (rest, answer) := store.fetch s.2 id
      ((s.1, rest), answer)
  publish s m :=
    let (rest, answer) := store.publish s.2 m
    ((s.1, rest), answer)

/-- A store in memory. -/
structure MemoryStore where
  messages : IdMap Message
  /-- Messages that cannot be fetched for now. -/
  flaky : IdSet
  /-- Nothing can be published for now. -/
  offline : Bool
  /-- How often something was fetched. -/
  fetches : Nat
deriving DecidableEq

namespace MemoryStore

/-- A store without messages. -/
def empty : MemoryStore := ⟨∅, ∅, false, 0⟩

/-- Makes a message available. -/
def put (s : MemoryStore) (m : Message) : MemoryStore :=
  { s with messages := s.messages.insert m.id m }

/-- Makes a message fail or recover. -/
def setFlaky (s : MemoryStore) (id : MessageId) (flaky : Bool) : MemoryStore :=
  { s with flaky := if flaky then s.flaky.insert id else s.flaky.erase id }

/-- Fetches a message. -/
def fetch (s : MemoryStore) (id : MessageId) : MemoryStore × Except FetchError Message :=
  ({ s with fetches := s.fetches + 1 },
    if s.flaky.contains id then .error (.transient (id.toText ++ " timed out"))
    else
      match s.messages[id]? with
      | some m => .ok m
      | none => .error (.notFound id.toText))

/-- Publishes a message. -/
def publish (s : MemoryStore) (m : Message) : MemoryStore × Except FetchError String :=
  if s.offline then (s, .error (.transient "content store offline"))
  else (s.put m, .ok ("mem:" ++ m.id.toText))

/-- The store in memory as a content store. -/
def calls : ContentStore MemoryStore := ⟨fetch, publish⟩

end MemoryStore

end Noticeboard
