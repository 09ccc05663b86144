import Noticeboard.Bus
import Noticeboard.ContentStore
import Noticeboard.Engine

/-!
# Fetching

From time to time the scheduler makes a pass: it sweeps the markers, asks the content store for
some of the messages to fetch, and publishes the queued own messages. Fetched content does not go
to the engine directly but onto the bus, like the content of any other source; a message that is
not the one asked for, or that the store itself refused, is discarded.
-/

namespace Noticeboard

/-- An engine with its bus and what its content store remembers. -/
structure Host (σ : Type) where
  engine : Engine
  bus : Bus
  content : σ

/-- What a pass did, in numbers. -/
structure Pass where
  /-- Markers that came due. -/
  due : Nat := 0
  purged : Nat := 0
  requested : Nat := 0
  fetched : Nat := 0
  failed : Nat := 0
  rejected : Nat := 0
  published : Nat := 0
  publishFailed : Nat := 0
deriving DecidableEq

namespace Host

variable {σ : Type}

/-- Puts an event on the bus. -/
def announce (h : Host σ) (e : Event) : Host σ := { h with bus := (h.bus.publish e).1 }

/-- Asks the store for one message. -/
def request (store : ContentStore σ) (h : Host σ) (p : Pass) (id : MessageId) : Host σ × Pass :=
  let (content, answer) := store.fetch h.content id
  let h := { h with content }
  let p := { p with requested := p.requested + 1 }
  match answer with
  | .ok m =>
    if m.id = id then
      (h.announce (.messageReceived m (some id.author)), { p with fetched := p.fetched + 1 })
    else ({ h with engine := h.engine.discard id }, { p with rejected := p.rejected + 1 })
  | .error e =>
    match e.reason? with
    | some reason => (h.announce (.messageFetchFailed id reason), { p with failed := p.failed + 1 })
    | none => ({ h with engine := h.engine.discard id }, { p with rejected := p.rejected + 1 })

/-- Publishes one queued message. -/
def send (store : ContentStore σ) (h : Host σ) (p : Pass) (m : Message) : Host σ × Pass :=
  let (content, answer) := store.publish h.content m
  let h := { h with content }
  match answer with
  | .ok location =>
    let (engine, changed) := h.engine.markPublished m.id location
    ({ h with engine }, if changed then { p with published := p.published + 1 } else p)
  | .error e =>
    ({ h with engine := (h.engine.markPublishFailed m.id e.message).1 },
      { p with publishFailed := p.publishFailed + 1 })

/-- The number of messages asked for in one pass; at least one. -/
def batch (h : Host σ) : Nat := max h.engine.config.fetchBatch.toNat 1

/-- Makes one pass. -/
def pass (store : ContentStore σ) (h : Host σ) : Host σ × Pass :=
  let (engine, swept) := h.engine.sweep
  let h := { h with engine }
  let p : Pass := { due := swept.eligible.length, purged := swept.purged.length }
  let (h, p) := (h.engine.toFetch.take h.batch).foldl (fun (h, p) id => request store h p id) (h, p)
  h.engine.state.outbox.pending.foldl (fun (h, p) m => send store h p m) (h, p)

end Host

end Noticeboard
