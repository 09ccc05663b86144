import Noticeboard.Routing
import Noticeboard.SnapshotStore

/-!
# Service

A service is an engine at work. It opens the snapshot store, brings back what was saved, and then
lets a router and a scheduler work: the router carries out the events of the bus, and the scheduler
makes a pass at the start and whenever it is woken, which happens when events were lost or a list
made messages wanted. Closing the service saves a last snapshot.
-/

namespace Noticeboard

/-- Why a service cannot be opened or started. -/
inductive ServiceError where
  | store (e : StoreError)
  | engine (e : EngineError)
  | alreadyStarted
deriving DecidableEq

/-- The text shown to the user, for the errors that have one of their own. -/
def ServiceError.message : ServiceError → String
  | store .io => "Snapshot I/O failed"
  | store .undecodable => "Snapshot decoding failed"
  | store .locked => "Snapshot lock held by another process"
  | engine e => e.message
  | alreadyStarted => "Runtime already started"

/-- An engine at work. -/
structure Service (σ : Type) extends Host σ where
  /-- The ticket of the router, once it has been started. -/
  router : Option Ticket
  /-- Whether the scheduler was woken since its last pass. -/
  woken : Bool

namespace Service

variable {σ : Type}

/-! ## Opening and closing -/

/-- A service that has not been started. -/
def fresh (engine : Engine) (content : σ) : Service σ where
  engine; content
  bus := .new engine.config.busCapacity.toNat
  router := none
  woken := false

/-- An engine with the snapshot of a store brought back, if there is one. -/
def recover (d : Disk) (path : String) (e : Engine) : Except ServiceError Engine :=
  match d.load path with
  | .error x => .error (.store x)
  | .ok none => .ok e
  | .ok (some p) =>
    match e.restore p with
    | (e, .ok ()) => .ok e
    | (_, .error x) => .error (.engine x)

/-- Opens a service on a fresh engine. The store stays open only if this succeeds. -/
def openOn (d : Disk) (e : Engine) (content : σ) : Disk × Except ServiceError (Service σ) :=
  match e.config.snapshotPath with
  | none => (d, .ok (fresh e content))
  | some path =>
    match d.openStore path with
    | (d, .error x) => (d, .error (.store x))
    | (d, .ok ()) =>
      match recover d path e with
      | .error x => (d.closeStore path, .error x)
      | .ok e => (d, .ok (fresh e content))

/-- Saves a last snapshot and closes the store. -/
def close (s : Service σ) (d : Disk) : Disk × Except ServiceError Unit :=
  match s.engine.config.snapshotPath with
  | none => (d, .ok ())
  | some path =>
    let (d, r) := d.save path s.engine.snapshot
    (d.closeStore path, r.mapError .store)

/-! ## Working -/

/-- Starts the router and the scheduler, which makes its first pass when it gets to work. -/
def start (s : Service σ) : Except ServiceError (Service σ) :=
  match s.router with
  | some _ => .error .alreadyStarted
  | none =>
    let (bus, t) := s.bus.subscribe .engineInputs
    .ok { s with bus, router := some t }

/-- Whether something that the router got asks for a pass. -/
def asksForPass : Routed → Bool
  | .applied _ result => result.refetch
  | .lost _ => true

/-- Lets the router work until nothing waits for it. -/
def route (s : Service σ) : Service σ :=
  match s.router with
  | none => s
  | some t =>
    let (h, routed) := s.toHost.route t true
    { s with toHost := h, woken := s.woken || routed.any asksForPass }

/-- Lets the scheduler make one pass. A scheduler without an interval does not work at all. -/
def pass (store : ContentStore σ) (s : Service σ) : Service σ :=
  if s.engine.config.sweepInterval = 0 then s else { s with toHost := (s.toHost.pass store).1 }

/-- Lets router and scheduler take turns as long as the scheduler is woken. -/
def turns (store : ContentStore σ) : Nat → Service σ → Service σ
  | 0, s => s
  | fuel + 1, s =>
    let s := s.route
    if s.woken then turns store fuel (({ s with woken := false }).pass store) else s

/-- Whether there is nothing to fetch and nothing to publish. -/
def isIdle (s : Service σ) : Bool :=
  s.engine.toFetch.isEmpty && s.engine.state.outbox.pending.isEmpty

/-- Wakes the scheduler until there is nothing left to do. -/
def settle (store : ContentStore σ) : Nat → Service σ → Service σ
  | 0, s => s
  | fuel + 1, s =>
    let s := turns store (fuel + 1) s
    if s.isIdle then s else settle store fuel { s with woken := true }

/-- The work of a service that was just started. The router comes first and the scheduler then makes
its first pass. What woke the scheduler meanwhile is carried out after that. -/
def work (store : ContentStore σ) (fuel : Nat) (s : Service σ) : Service σ :=
  if s.router.isNone then s else settle store fuel (s.route.pass store)

end Service

end Noticeboard
