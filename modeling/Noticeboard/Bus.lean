import Noticeboard.Event
import Std.Data.ExtTreeMap

/-!
# Bus

The bus passes events to its subscribers. It keeps the latest events, as many as the capacity
rounded up to a power of two, and each subscriber reads them at its own pace from where it joined.
One that falls so far behind that events were dropped is told once how many it lost, and goes on
with the oldest event kept.

An event published while nobody listens is lost. `Bus.receive` gives a subscriber its next event
that passes its filter.
-/

namespace Noticeboard

/-- The number that a subscriber is known by. -/
abbrev Ticket := Nat

/-- One reader of the bus. -/
structure Subscriber where
  filter : Filter
  /-- The number of the next event to read. -/
  next : Nat
deriving DecidableEq

/-- A bus with its latest events. -/
structure Bus where
  capacity : Nat
  /-- The events kept, oldest first. -/
  kept : List Event
  /-- How many events were passed on, dropped ones included. -/
  sent : Nat
  /-- How many events were published, those without a listener included. -/
  published : Nat
  subscribers : Std.ExtTreeMap Ticket Subscriber
  /-- How many subscribers listen to each list of topics; none of the counts is zero. -/
  byTopics : Std.ExtTreeMap String Nat
  /-- The ticket of the next subscriber. -/
  nextTicket : Ticket
  /-- Set when no more events will come. -/
  closed : Bool
deriving DecidableEq

/-- What a subscriber gets when it asks. -/
inductive Delivery where
  | event (e : Event)
  /-- Nothing for now. -/
  | nothing
  /-- So many events were lost. -/
  | lagged (lost : Nat)
  | closed
deriving DecidableEq

namespace Delivery

/-- The text shown to the user when events were lost. -/
def lagText (lost : Nat) : String := "Subscriber lagged, " ++ toString lost ++ " events dropped"

/-- The text shown to the user when the bus has closed. -/
def closedText : String := "Event bus closed"

end Delivery

namespace Bus

/-- The capacity of a bus for which none is given. -/
def defaultCapacity : Nat := 1000

/-- A bus without subscribers. -/
def new (capacity : Nat) : Bus := ⟨capacity, [], 0, 0, ∅, ∅, 0, false⟩

/-- How many events are kept. -/
def window (b : Bus) : Nat := (max b.capacity 1).nextPowerOfTwo

/-- The number of the oldest event kept. -/
def oldest (b : Bus) : Nat := b.sent - b.kept.length

/-- Counts one more listener to a list of topics. -/
def countUp (counts : Std.ExtTreeMap String Nat) (topics : String) : Std.ExtTreeMap String Nat :=
  counts.alter topics fun n => some (n.getD 0 + 1)

/-- Counts one listener less. -/
def countDown (counts : Std.ExtTreeMap String Nat) (topics : String) : Std.ExtTreeMap String Nat :=
  counts.alter topics fun n => n.bind fun n => if n ≤ 1 then none else some (n - 1)

/-- Adds a subscriber, which gets what is published from now on. -/
def subscribe (b : Bus) (filter : Filter) : Bus × Ticket :=
  ({ b with
      subscribers := b.subscribers.insert b.nextTicket ⟨filter, b.sent⟩
      byTopics := countUp b.byTopics filter.topicsText
      nextTicket := b.nextTicket + 1 }, b.nextTicket)

/-- Removes a subscriber. -/
def unsubscribe (b : Bus) (t : Ticket) : Bus :=
  match b.subscribers[t]? with
  | none => b
  | some s =>
    { b with
      subscribers := b.subscribers.erase t
      byTopics := countDown b.byTopics s.filter.topicsText }

/-- Publishes an event. Also gives the number of subscribers that it is passed on to. -/
def publish (b : Bus) (e : Event) : Bus × Nat :=
  let listeners := b.subscribers.size
  if listeners = 0 then ({ b with published := b.published + 1 }, 0)
  else
    let kept := b.kept ++ [e]
    ({ b with
        kept := kept.drop (kept.length - b.window)
        sent := b.sent + 1
        published := b.published + 1 }, listeners)

/-- No more events will come. -/
def close (b : Bus) : Bus := { b with closed := true }

/-- The events that a reader has not reached. -/
def ahead (b : Bus) (next : Nat) : List Event := b.kept.drop (next - b.oldest)

/-- What a reader gets next and where it stands afterwards. Events that its filter refuses are
passed over. -/
def next (b : Bus) (s : Subscriber) : Subscriber × Delivery :=
  if s.next < b.oldest then ({ s with next := b.oldest }, .lagged (b.oldest - s.next))
  else
    match (b.ahead s.next).dropWhile (!s.filter.accepts ·) with
    | e :: rest => ({ s with next := b.sent - rest.length }, .event e)
    | [] => ({ s with next := b.sent }, if b.closed then .closed else .nothing)

/-- Gives a subscriber what it gets next; nothing for an unknown ticket. -/
def receive? (b : Bus) (t : Ticket) : Option (Bus × Delivery) :=
  b.subscribers[t]?.map fun s =>
    let (s, d) := b.next s
    ({ b with subscribers := b.subscribers.insert t s }, d)

end Bus

end Noticeboard
