import Noticeboard.Proofs.Collections
import Noticeboard.Routing

/-!
# Rounds of fetching

The requests of a pass go through one after another: what becomes known of an answer goes onto the bus,
and a message whose content is refused is discarded (`Host.foldl_request`).

A round is a pass of the scheduler, after which the engine carries out every event that the pass
published (`Host.round`). A store is `Steady` if it gives the messages of a supply whenever it is
asked for them, and says of any other message that it is missing or cannot be fetched for now. A pass
over such a store sweeps the markers, asks the store for `Host.requested`, one message after another,
and puts the answers on the bus (`Host.pass_fst`).
-/

namespace Noticeboard

variable {σ : Type}

namespace ContentStore

/-- What a store remembers after some fetches. -/
def fetched (store : ContentStore σ) (content : σ) (ids : List MessageId) : σ :=
  ids.foldl (fun content id => (store.fetch content id).1) content

/-- The event by which the answer to a fetch gets known. Content that is refused has none. -/
def eventOf? (id : MessageId) : Except FetchError Message → Option Event
  | .ok m => if m.id = id then some (.messageReceived m (some id.author)) else none
  | .error e => e.reason?.map (.messageFetchFailed id)

/-- The events that come of some fetches. -/
def published (store : ContentStore σ) : σ → List MessageId → List Event
  | _, [] => []
  | content, id :: ids =>
    (eventOf? id (store.fetch content id).2).toList ++
      published store (store.fetch content id).1 ids

/-- The messages whose content is refused, of some that are fetched. -/
def refused (store : ContentStore σ) : σ → List MessageId → List MessageId
  | _, [] => []
  | content, id :: ids =>
    (if (eventOf? id (store.fetch content id).2).isSome then [] else [id]) ++
      refused store (store.fetch content id).1 ids

/-- Whatever was fetched before, the store gives the messages of a supply under their ids, and says of
any other message that it is not found or cannot be fetched for now. -/
structure Steady (store : ContentStore σ) (content : σ) (supply : IdMap Message) : Prop where
  keyed : ∀ (id : MessageId) (m : Message), supply[id]? = some m → m.id = id
  supplied : ∀ (before : List MessageId) (id : MessageId) (m : Message), supply[id]? = some m →
    (store.fetch (store.fetched content before) id).2 = .ok m
  failing : ∀ (before : List MessageId) (id : MessageId), id ∉ supply → ∃ e reason,
    (store.fetch (store.fetched content before) id).2 = .error e ∧ e.reason? = some reason

variable {store : ContentStore σ} {content : σ} {supply : IdMap Message} {id : MessageId}

/-- An answer gets known as an arrival or as a failure, or not at all. -/
theorem eventOf?_cases (id : MessageId) (answer : Except FetchError Message) :
    (∃ m, answer = .ok m ∧ m.id = id ∧
      eventOf? id answer = some (.messageReceived m (some id.author))) ∨
    (∃ e reason, answer = .error e ∧ e.reason? = some reason ∧
      eventOf? id answer = some (.messageFetchFailed id reason)) ∨
    (eventOf? id answer = none ∧ ((∃ m, answer = .ok m ∧ m.id ≠ id) ∨
      ∃ e, answer = .error e ∧ e.reason? = none)) := by
  cases answer with
  | ok m =>
    by_cases hid : m.id = id
    · exact .inl ⟨m, rfl, hid, by simp [eventOf?, hid]⟩
    · exact .inr (.inr ⟨by simp [eventOf?, hid], .inl ⟨m, rfl, hid⟩⟩)
  | error e =>
    cases hreason : e.reason? with
    | some reason => exact .inr (.inl ⟨e, reason, rfl, hreason, by simp [eventOf?, hreason]⟩)
    | none => exact .inr (.inr ⟨by simp [eventOf?, hreason], .inr ⟨e, rfl, hreason⟩⟩)

theorem fetched_append (store : ContentStore σ) (content : σ) (ids ids' : List MessageId) :
    store.fetched content (ids ++ ids') = store.fetched (store.fetched content ids) ids' :=
  List.foldl_append

theorem Steady.fetched (h : store.Steady content supply) (ids : List MessageId) :
    store.Steady (store.fetched content ids) supply := by
  refine ⟨h.keyed, fun before id m hm => ?_, fun before id hid => ?_⟩
  · rw [← fetched_append]
    exact h.supplied _ id m hm
  · rw [← fetched_append]
    exact h.failing _ id hid

/-- Every answer of a steady store gets known. -/
theorem Steady.eventOf? (h : store.Steady content supply) (id : MessageId) :
    (∃ m, supply[id]? = some m ∧ ContentStore.eventOf? id (store.fetch content id).2 =
      some (.messageReceived m (some id.author))) ∨
    (id ∉ supply ∧ ∃ reason, ContentStore.eventOf? id (store.fetch content id).2 =
      some (.messageFetchFailed id reason)) := by
  cases hm : supply[id]? with
  | some m =>
    have hanswer : (store.fetch content id).2 = .ok m := h.supplied [] id m hm
    refine .inl ⟨m, rfl, ?_⟩
    rw [hanswer, ContentStore.eventOf?, if_pos (h.keyed id m hm)]
  | none =>
    have hid : id ∉ supply := by
      rw [Std.ExtTreeMap.mem_iff_isSome_getElem?, hm]
      exact Bool.false_ne_true
    obtain ⟨e, reason, hanswer, hreason⟩ := h.failing [] id hid
    have hanswer : (store.fetch content id).2 = .error e := hanswer
    refine .inr ⟨hid, reason, ?_⟩
    rw [hanswer, ContentStore.eventOf?, hreason, Option.map_some]

/-- A steady store refuses nothing. -/
theorem Steady.refused_eq (h : store.Steady content supply) (ids : List MessageId) :
    store.refused content ids = [] := by
  induction ids generalizing content with
  | nil => rfl
  | cons id ids ih =>
    have hrest : store.refused (store.fetch content id).1 ids = [] := ih (h.fetched [id])
    rw [refused, hrest, List.append_nil]
    rcases h.eventOf? id with ⟨m, -, hevent⟩ | ⟨-, reason, hevent⟩ <;> rw [hevent] <;> rfl

end ContentStore

namespace MemoryStore

/-- The messages that a store in memory gives when asked. -/
def supply (s : MemoryStore) : IdMap Message := s.messages.filter fun id _ => !s.flaky.contains id

theorem fetched_calls (s : MemoryStore) (ids : List MessageId) :
    ∃ n, calls.fetched s ids = { s with fetches := n } := by
  induction ids generalizing s with
  | nil => exact ⟨s.fetches, rfl⟩
  | cons id ids ih => exact ih { s with fetches := s.fetches + 1 }

/-- A store in memory that keeps its messages under their ids is steady. -/
theorem steady_calls (s : MemoryStore)
    (hkeyed : ∀ (id : MessageId) (m : Message), s.messages[id]? = some m → m.id = id) :
    calls.Steady s s.supply := by
  have hsupply {id : MessageId} {m : Message} : s.supply[id]? = some m ↔
      s.messages[id]? = some m ∧ s.flaky.contains id = false := by
    simp [supply, Option.filter_eq_some_iff]
  refine ⟨fun id m hm => hkeyed id m (hsupply.1 hm).1, fun before id m hm => ?_,
    fun before id hid => ?_⟩
  · obtain ⟨n, hfetched⟩ := s.fetched_calls before
    obtain ⟨hm, hflaky⟩ := hsupply.1 hm
    rw [hfetched]
    simp only [calls, fetch, hflaky, hm]
    rfl
  · obtain ⟨n, hfetched⟩ := s.fetched_calls before
    rw [hfetched]
    simp only [calls, fetch]
    cases hflaky : s.flaky.contains id with
    | true => exact ⟨_, .transient, rfl, rfl⟩
    | false =>
      cases hm : s.messages[id]? with
      | none => exact ⟨_, .notFound, rfl, rfl⟩
      | some m => exact absurd (mem_iff_getElem?.2 ⟨m, hsupply.2 ⟨hm, hflaky⟩⟩) hid

end MemoryStore

namespace Pass

/-- A pass with one more request, and what became known of it. -/
def count (p : Pass) : Option Event → Pass
  | none => { p with requested := p.requested + 1, rejected := p.rejected + 1 }
  | some event =>
    if event.topic = .arrivals then
      { p with requested := p.requested + 1, fetched := p.fetched + 1 }
    else { p with requested := p.requested + 1, failed := p.failed + 1 }

end Pass

namespace Host

open ContentStore

variable {store : ContentStore σ} {h : Host σ} {supply : IdMap Message}

/-- The messages that a pass asks the store for. -/
def requested (h : Host σ) : List MessageId := h.engine.sweep.1.toFetch.take h.batch

/-- A pass, and the events that it published carried out. The notifications that come of this are left
aside. -/
def round (store : ContentStore σ) (h : Host σ) : Host σ :=
  let events := store.published h.content h.requested
  let h := (h.pass store).1
  { h with engine := events.foldl (fun e event => (e.apply event).1) h.engine }

/-- Several rounds. -/
def rounds (store : ContentStore σ) (h : Host σ) : Nat → Host σ
  | 0 => h
  | n + 1 => (rounds store h n).round store

/-- The messages that the store was asked for in several rounds, in this order. -/
def asked (store : ContentStore σ) (h : Host σ) (n : Nat) : List MessageId :=
  (List.range n).flatMap fun k => (rounds store h k).requested

theorem asked_succ (store : ContentStore σ) (h : Host σ) (n : Nat) :
    asked store h (n + 1) = asked store h n ++ (rounds store h n).requested := by
  rw [asked, asked, List.range_succ, List.flatMap_append, List.flatMap_singleton]

/-! ## What a pass does -/

variable {p : Pass} {id : MessageId}

/-- A request of which nothing becomes known settles its message. -/
theorem request_eq (store : ContentStore σ) (h : Host σ) (p : Pass) (id : MessageId) :
    request store h p id =
      ((match eventOf? id (store.fetch h.content id).2 with
        | some event =>
          { h with bus := (h.bus.publish event).1, content := (store.fetch h.content id).1 }
        | none =>
          { h with engine := h.engine.discard id, content := (store.fetch h.content id).1 }),
        p.count (eventOf? id (store.fetch h.content id).2)) := by
  rw [request]
  cases hfetch : store.fetch h.content id with
  | mk content answer =>
    obtain ⟨m, rfl, hid, hevent⟩ | ⟨e, reason, rfl, hreason, hevent⟩ |
      ⟨hevent, ⟨m, rfl, hid⟩ | ⟨e, rfl, hreason⟩⟩ := eventOf?_cases id answer
    · simp only [hevent, if_pos hid]
      rfl
    · simp only [hevent, hreason]
      rfl
    · simp only [hevent, if_neg hid]
      rfl
    · simp only [hevent, hreason]
      rfl

/-- A host after several requests. -/
def answered (store : ContentStore σ) (h : Host σ) (ids : List MessageId) : Host σ where
  engine := (store.refused h.content ids).foldl Engine.discard h.engine
  bus := (store.published h.content ids).foldl (fun b event => (b.publish event).1) h.bus
  content := store.fetched h.content ids

/-- The host and the numbers after several requests. -/
theorem foldl_request (store : ContentStore σ) (h : Host σ) (p : Pass) (ids : List MessageId) :
    ids.foldl (fun (h, p) id => request store h p id) (h, p) =
      (h.answered store ids,
        { p with
          requested := p.requested + ids.length
          fetched := p.fetched + (store.published h.content ids).countP (·.topic = .arrivals)
          failed := p.failed + (store.published h.content ids).countP (·.topic = .fetchFailures)
          rejected := p.rejected + (store.refused h.content ids).length }) := by
  induction ids generalizing h p with
  | nil => rfl
  | cons id ids ih =>
    show List.foldl _ (request store h p id) ids = _
    rw [request_eq, answered, published, refused]
    obtain ⟨m, -, -, hevent⟩ | ⟨e, reason, -, -, hevent⟩ | ⟨hevent, -⟩ :=
      eventOf?_cases id (store.fetch h.content id).2
    all_goals
      rw [hevent, ih]
      refine Prod.ext rfl ?_
      simp [Pass.count, Event.topic]
      omega

/-- The host after a steady store was asked for several messages. -/
theorem foldl_request_fst (hs : store.Steady h.content supply) (ids : List MessageId) :
    (ids.foldl (fun (h, p) id => request store h p id) (h, p)).1 =
      { h with
        bus := (store.published h.content ids).foldl (fun b event => (b.publish event).1) h.bus
        content := store.fetched h.content ids } := by
  rw [foldl_request, answered, hs.refused_eq]
  rfl

/-- A pass over a steady store, with nothing to publish: the engine sweeps its markers, the store
answers, and the answers go onto the bus. -/
theorem pass_fst (hs : store.Steady h.content supply)
    (houtbox : h.engine.state.outbox.pending = []) :
    (h.pass store).1 =
      { engine := h.engine.sweep.1
        bus := (store.published h.content h.requested).foldl (fun b event => (b.publish event).1)
          h.bus
        content := store.fetched h.content h.requested } := by
  obtain ⟨swept, hswept⟩ : ∃ swept : Host σ, swept = { h with engine := h.engine.sweep.1 } := ⟨_, rfl⟩
  obtain ⟨start, hstart⟩ : ∃ start : Pass, start =
    { due := h.engine.sweep.2.eligible.length, purged := h.engine.sweep.2.purged.length } := ⟨_, rfl⟩
  obtain ⟨after, hafter⟩ : ∃ after, after =
    h.requested.foldl (fun (h, p) id => request store h p id) (swept, start) := ⟨_, rfl⟩
  have hfirst : after.1 = { swept with
      bus := (store.published h.content h.requested).foldl (fun b event => (b.publish event).1) h.bus
      content := store.fetched h.content h.requested } := by
    subst hafter hswept
    exact foldl_request_fst (h := { h with engine := h.engine.sweep.1 }) hs h.requested
  have hnone : after.1.engine.state.outbox.pending = [] := by
    rw [hfirst, hswept]
    exact houtbox
  have hpass : h.pass store =
      after.1.engine.state.outbox.pending.foldl (fun (h, p) m => send store h p m) after := by
    subst hafter hswept hstart
    rfl
  rw [hpass, hnone, List.foldl_nil, hfirst, hswept]

/-- What a round does to an engine: it sweeps its markers, and then carries out the answers. -/
theorem round_eq (hs : store.Steady h.content supply)
    (houtbox : h.engine.state.outbox.pending = []) :
    (round store h).content = store.fetched h.content h.requested ∧
      (round store h).engine = (store.published h.content h.requested).foldl
        (fun e event => (e.apply event).1) h.engine.sweep.1 := by
  have hpass := pass_fst hs houtbox
  constructor
  · show (h.pass store).1.content = _
    rw [hpass]
  · show (store.published h.content h.requested).foldl _ (h.pass store).1.engine = _
    rw [hpass]

end Host

end Noticeboard
