import Noticeboard.Fetching

/-!
# Routing

`Engine.apply` carries out one event of the bus and gives the notifications to publish: after an
arrival one for each board that changed, after a deletion one for each board that lost messages. It
also tells whether there is something new to fetch. What the engine refuses has no effect on the
bus.

`Host.route` does so with every event that waits for a subscriber.
-/

namespace Noticeboard

/-- What came of an event. -/
structure Applied where
  /-- The notifications to publish. -/
  notifications : List Event := []
  /-- Whether to look for missing content right away. -/
  refetch : Bool := false
deriving DecidableEq

namespace Engine

/-- The notifications about the boards that a deletion changed. -/
def deletionNotices (r : DeletionReport) : List Event :=
  r.boards.toList.filterMap fun (name, removal) => removal.removed.head?.map (.boardUpdated name)

/-- Carries out an event. -/
def apply (e : Engine) : Event → Engine × Applied
  | .messageReceived m announcedBy =>
    match e.receive m announcedBy with
    | (e, .ok a) => (e, { notifications := a.notifications })
    | (e, .error _) => (e, {})
  | .listReceived id references received =>
    match e.receiveList id references received with
    | (e, .ok wanted) => (e, { refetch := !wanted.isEmpty })
    | (e, .error _) => (e, {})
  | .messageFetchFailed id reason => (e.fail (.message id) reason, {})
  | .listFetchFailed id reason => (e.fail (.list id) reason, {})
  | .identityDeleted identity =>
    let (e, r) := e.deleteIdentity identity
    (e, { notifications := deletionNotices r })
  | .boardUpdated .. | .ghostResolved .. => (e, {})

end Engine

/-- One thing that a router got from the bus. -/
inductive Routed where
  | applied (event : Event) (result : Applied)
  /-- So many events were lost. -/
  | lost (n : Nat)
deriving DecidableEq

namespace Host

variable {σ : Type}

/-- Carries out the events that wait for a subscriber. `publish` tells whether the notifications go
onto the bus. Each step takes one event or is told once of a loss. -/
def routeFor (t : Ticket) (publish : Bool) : Nat → Host σ → Host σ × List Routed
  | 0, h => (h, [])
  | fuel + 1, h =>
    match h.bus.receive? t with
    | none => (h, [])
    | some (bus, .event e) =>
      let (engine, result) := h.engine.apply e
      let h := { h with bus, engine }
      let h := if publish then result.notifications.foldl announce h else h
      let (h, rest) := routeFor t publish fuel h
      (h, .applied e result :: rest)
    | some (bus, .lagged n) =>
      let (h, rest) := routeFor t publish fuel { h with bus }
      (h, .lost n :: rest)
    | some (bus, _) => ({ h with bus }, [])

/-- Carries out all events that wait for a subscriber. Between two events at most one loss is
reported, so twice the number of events kept is enough. -/
def route (h : Host σ) (t : Ticket) (publish : Bool) : Host σ × List Routed :=
  routeFor t publish (2 * h.bus.kept.length + 2) h

end Host

end Noticeboard
