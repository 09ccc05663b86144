import Noticeboard.Proofs.Fetching.Rounds
import Noticeboard.Proofs.State.Outbox
import Noticeboard.Proofs.State.Refusals

/-!
# Passes account for every item

However a store answers, a pass accounts for each request and each queued message once
(`Host.accounted_pass`). An answer gets known by one event, or its message is settled because
its content is refused; an attempt to publish is recorded in the entry of its message. The numbers of
the pass are the numbers of these.

To find the entry of a message to publish, the outbox must keep each message under its id. Every engine
does so that came about by operations and by snapshots with such an outbox (`Engine.Attained`). The
snapshots that these engines take themselves are among them (`Engine.Attained.restore_snapshot`).
-/

namespace Noticeboard

/-! ## Attempts to publish -/

/-- An entry after an attempt to publish its message. -/
def OutboxEntry.tried (entry : OutboxEntry) (now : Timestamp) :
    Except FetchError String → OutboxEntry
  | .ok location =>
    { entry with
      state := .published location now
      attempts := entry.attempts + 1
      lastError := none }
  | .error e => { entry with attempts := entry.attempts + 1, lastError := some e.message }

namespace Outbox

variable {o o' : Outbox} {m : Message} {now : Timestamp} {id : MessageId}

/-- An outbox in which an attempt to publish is recorded. -/
def marked (o : Outbox) (id : MessageId) (now : Timestamp) : Except FetchError String → Outbox
  | .ok location => (o.markPublished id location now).1
  | .error e => (o.markFailed id e.message).1

theorem getElem?_marked (o : Outbox) (id x : MessageId) (now : Timestamp)
    (answer : Except FetchError String) : (o.marked id now answer)[x]? =
      o[x]?.map fun e => if id = x ∧ e.state = .queued then e.tried now answer else e := by
  cases answer with
  | ok location => exact getElem?_markPublished location
  | error e => exact getElem?_markFailed e.message

theorem getElem?_marked_of_ne {x : MessageId} (hne : id ≠ x) (answer : Except FetchError String) :
    (o.marked id now answer)[x]? = o[x]? := by
  simp [getElem?_marked, hne]

/-- An outbox in which several attempts are recorded. -/
def markedAll (o : Outbox) (now : Timestamp) (rs : List (Message × Except FetchError String)) :
    Outbox :=
  rs.foldl (fun o r => o.marked r.1.id now r.2) o

variable {rs : List (Message × Except FetchError String)}

theorem getElem?_markedAll_of_not_mem (h : id ∉ rs.map (·.1.id)) :
    (o.markedAll now rs)[id]? = o[id]? := by
  induction rs generalizing o with
  | nil => rfl
  | cons r rs ih =>
    obtain ⟨hne, hrest⟩ := not_or.1 (mt List.mem_cons.2 h)
    exact (ih hrest).trans (getElem?_marked_of_ne (Ne.symm hne) r.2)

/-- Of several attempts with different messages each is recorded in the entry of its message. -/
theorem getElem?_markedAll {r : Message × Except FetchError String} {entry : OutboxEntry}
    (hnodup : (rs.map (·.1.id)).Nodup) (hr : r ∈ rs) (hentry : o[r.1.id]? = some entry)
    (hqueued : entry.state = .queued) :
    (o.markedAll now rs)[r.1.id]? = some (entry.tried now r.2) := by
  induction rs generalizing o with
  | nil => cases hr
  | cons first rs ih =>
    obtain ⟨hfirst, hnodup⟩ := List.nodup_cons.1 hnodup
    rcases List.mem_cons.1 hr with rfl | hr
    · refine (getElem?_markedAll_of_not_mem hfirst).trans ?_
      rw [getElem?_marked, hentry, Option.map_some, if_pos ⟨rfl, hqueued⟩]
    · have hne : first.1.id ≠ r.1.id := fun heq =>
        hfirst (List.mem_map.2 ⟨r, hr, heq.symm⟩)
      exact ih hnodup hr ((getElem?_marked_of_ne hne first.2).trans hentry)

theorem nodup_pending (h : o.Keyed) : (o.pending.map (·.id)).Nodup := by
  refine List.pairwise_map.2 ((pairwise_pending h).imp fun {a b} hbefore heq => ?_)
  obtain ⟨x, y, hx, hy, hlt⟩ := hbefore
  rw [heq, hy] at hx
  cases hx
  rcases hlt with hlt | ⟨-, hlt⟩
  · exact UInt64.lt_irrefl _ hlt
  · rw [heq, Std.compare_self] at hlt
    cases hlt

/-- When all queued messages were tried, each has the answer to it in its entry. -/
theorem Keyed.tried (h : o.Keyed) (hrs : rs.map (·.1) = o.pending) (hm : m ∈ o.pending) :
    ∃ entry answer, (m, answer) ∈ rs ∧ o[m.id]? = some entry ∧ entry.message = m ∧
      entry.state = .queued ∧ (o.markedAll now rs)[m.id]? = some (entry.tried now answer) := by
  have hids : (rs.map (·.1.id)).Nodup := by
    have hnodup := nodup_pending h
    rw [← hrs, List.map_map] at hnodup
    exact hnodup
  obtain ⟨entry, hentry, hmessage, hqueued⟩ := (mem_pending h).1 hm
  obtain ⟨⟨_, answer⟩, hr, rfl⟩ := List.mem_map.1 (hrs.symm ▸ hm)
  exact ⟨entry, answer, hr, hentry, hmessage, hqueued, getElem?_markedAll hids hr hentry hqueued⟩

theorem untried (hrs : rs.map (·.1) = o.pending) (hid : id ∉ o.pending.map (·.id)) :
    (o.markedAll now rs)[id]? = o[id]? := by
  rw [← hrs, List.map_map] at hid
  exact getElem?_markedAll_of_not_mem hid

/-! ## Messages stay under their ids -/

theorem Keyed.sub (h : o.Keyed) (hsub : ∀ x : MessageId, ∀ entry, o'[x]? = some entry →
    o[x]? = some entry) : o'.Keyed := fun x entry hentry => h x entry (hsub x entry hentry)

theorem Keyed.map {f : MessageId → OutboxEntry → OutboxEntry} (h : o.Keyed)
    (ho' : ∀ x : MessageId, o'[x]? = o[x]?.map (f x))
    (hf : ∀ x entry, (f x entry).message = entry.message) : o'.Keyed := by
  intro x entry hentry
  rw [ho'] at hentry
  obtain ⟨old, hold, rfl⟩ := Option.map_eq_some_iff.1 hentry
  exact (congrArg Message.id (hf x old)).trans (h x old hold)

theorem Keyed.queue (h : o.Keyed) (m : Message) (now : Timestamp) : (o.queue m now).Keyed := by
  intro x entry hentry
  rw [getElem?_queue] at hentry
  split at hentry
  · next hnew =>
    cases hentry
    exact hnew.1
  · exact h x entry hentry

theorem Keyed.erase (h : o.Keyed) (id : MessageId) : Keyed (Std.ExtTreeMap.erase o id) := by
  refine h.sub fun x entry hentry => ?_
  rw [Std.ExtTreeMap.getElem?_erase, Option.ite_none_left_eq_some] at hentry
  exact hentry.2

theorem Keyed.removeAuthor (h : o.Keyed) (author : IdentityId) : (o.removeAuthor author).Keyed := by
  refine h.sub fun x entry hentry => ?_
  rw [getElem?_removeAuthor, Option.ite_none_left_eq_some] at hentry
  exact hentry.2

end Outbox

namespace Engine

variable {e : Engine}

/-- An engine with another outbox. -/
def withOutbox (e : Engine) (outbox : Outbox) : Engine :=
  { e with state := { e.state with outbox } }

theorem outbox_keyed_step (hnamed : e.state.Named) (h : e.state.outbox.Keyed) (op : Op) :
    (e.step op).state.outbox.Keyed := by
  cases op with
  | receive m announcedBy =>
    show (e.state.receive e.config.validation m announcedBy).1.outbox.Keyed
    rwa [State.outbox_receive hnamed]
  | receiveList id references received =>
    show (e.state.receiveList e.config.lists id references received).1.outbox.Keyed
    rwa [State.outbox_receiveList]
  | deleteIdentity identity => exact h.removeAuthor identity
  | queueOwn m =>
    refine State.queueOwn_keep (p := fun s => s.outbox.Keyed) h fun _ _ => ?_
    rw [State.outbox_receive (s := { e.state with outbox := e.state.outbox.queue m e.now }) hnamed]
    exact h.queue m e.now
  | unsend id => exact State.unsend_keep (p := fun s => s.outbox.Keyed) h (h.erase id)
  | markPublished id location =>
    refine h.map (fun x => Outbox.getElem?_markPublished location) fun x entry => ?_
    split <;> rfl
  | markPublishFailed id error =>
    refine h.map (fun x => Outbox.getElem?_markFailed error) fun x entry => ?_
    split <;> rfl
  | fail | sweep | discard | retainMarkers | subscribe | unsubscribe | setClock => exact h

/-- The engines that operations and snapshots can lead to, where the outbox of a snapshot has each
message under its id. -/
inductive Attained : Engine → Prop
  | new (config : EngineConfig) (trust : Trust) (now : Timestamp) : Attained (new config trust now)
  | step {e : Engine} (op : Op) : Attained e → Attained (e.step op)
  | restore {e : Engine} (p : Snapshot) (keyed : p.outbox.Keyed) :
    Attained e → Attained (e.restore p).1

theorem Attained.reachable (h : e.Attained) : e.Reachable := by
  induction h with
  | new config trust now => exact .new config trust now
  | step op _ ih => exact .step op ih
  | restore p _ _ ih => exact .restore p ih

theorem Attained.outbox_keyed (h : e.Attained) : e.state.outbox.Keyed := by
  induction h with
  | new config trust now =>
    intro x entry hentry
    simp [Engine.new, State.empty] at hentry
  | step op hattained ih => exact outbox_keyed_step hattained.reachable.named ih op
  | restore p hkeyed _ ih =>
    rw [(state_restore _ p).1, State.restore]
    split
    · exact ih
    · exact hkeyed

/-- The snapshots that engines take themselves lead nowhere else. -/
theorem Attained.restore_snapshot {e' : Engine} (h : e.Attained) (h' : e'.Attained) :
    (e.restore e'.snapshot).1.Attained :=
  .restore e'.snapshot h'.outbox_keyed h

end Engine

variable {σ : Type}

namespace ContentStore

/-- What a store remembers after some messages were published. -/
def sent (store : ContentStore σ) (content : σ) (ms : List Message) : σ :=
  ms.foldl (fun content m => (store.publish content m).1) content

/-- Messages to publish with the answers to them. -/
def replies (store : ContentStore σ) : σ → List Message → List (Message × Except FetchError String)
  | _, [] => []
  | content, m :: ms =>
    (m, (store.publish content m).2) :: replies store (store.publish content m).1 ms

variable {store : ContentStore σ} {content : σ} {id : MessageId}

theorem map_fst_replies (store : ContentStore σ) (content : σ) (ms : List Message) :
    (store.replies content ms).map (·.1) = ms := by
  induction ms generalizing content with
  | nil => rfl
  | cons m ms ih => exact congrArg (m :: ·) (ih _)

/-- Every message is published or not. -/
theorem length_replies (store : ContentStore σ) (content : σ) (ms : List Message) :
    (store.replies content ms).countP (·.2.isOk) + (store.replies content ms).countP (!·.2.isOk) =
      ms.length := by
  have hlength : (store.replies content ms).length = ms.length := by
    rw [← List.length_map (·.1), map_fst_replies]
  rw [← hlength, List.length_eq_countP_add_countP (·.2.isOk)]
  simp

end ContentStore

namespace Host

open ContentStore

variable {store : ContentStore σ} {h : Host σ} {p : Pass} {id : MessageId} {m : Message}

/-! ## One item -/

/-- An attempt to publish a queued message is recorded and counted. -/
theorem send_eq (hqueued : h.engine.state.outbox.isQueued m.id = true) :
    send store h p m =
      ({ h with
          engine := h.engine.withOutbox
            (h.engine.state.outbox.marked m.id h.engine.now (store.publish h.content m).2)
          content := (store.publish h.content m).1 },
        if (store.publish h.content m).2.isOk then { p with published := p.published + 1 }
        else { p with publishFailed := p.publishFailed + 1 }) := by
  have hchanged (location : String) :
      (h.engine.state.outbox.markPublished m.id location h.engine.now).2 = true := by
    rw [Outbox.markPublished, if_pos hqueued]
  rw [send]
  cases hanswer : store.publish h.content m with
  | mk content answer =>
    cases answer with
    | ok location =>
      have hmarked : h.engine.markPublished m.id location =
          (h.engine.withOutbox (h.engine.state.outbox.marked m.id h.engine.now (.ok location)),
            true) :=
        Prod.ext rfl (hchanged location)
      simp only [hmarked]
      rfl
    | error e => rfl

/-! ## All items -/

/-- The host and the numbers after several messages were tried, all of them queued and no two under the
same id. -/
theorem foldl_send {ms : List Message} (hnodup : (ms.map (·.id)).Nodup)
    (hqueued : ∀ m ∈ ms, h.engine.state.outbox.isQueued m.id = true) :
    ms.foldl (fun (h, p) m => send store h p m) (h, p) =
      ({ h with
          engine := h.engine.withOutbox
            (h.engine.state.outbox.markedAll h.engine.now (store.replies h.content ms))
          content := store.sent h.content ms },
        { p with
          published := p.published + (store.replies h.content ms).countP (·.2.isOk)
          publishFailed := p.publishFailed + (store.replies h.content ms).countP (!·.2.isOk) }) := by
  induction ms generalizing h p with
  | nil => rfl
  | cons m ms ih =>
    obtain ⟨hm, hnodup⟩ := List.nodup_cons.1 hnodup
    obtain ⟨hfirst, hqueued⟩ := List.forall_mem_cons.1 hqueued
    show List.foldl _ (send store h p m) ms = _
    rw [send_eq hfirst, ih hnodup]
    · refine Prod.ext rfl ?_
      rw [replies]
      cases hok : (store.publish h.content m).2.isOk <;> simp [hok] <;> omega
    · intro m' hm'
      have hne : m.id ≠ m'.id := fun heq => hm (List.mem_map.2 ⟨m', hm', heq.symm⟩)
      show (h.engine.state.outbox.marked m.id h.engine.now _).isQueued m'.id = true
      rw [Outbox.isQueued, Outbox.getElem?_marked_of_ne hne]
      exact hqueued m' hm'

end Host

/-! ## A whole pass -/

/-- To discard messages leaves the boards, the outbox and the clock. -/
theorem Engine.foldl_discard (e : Engine) (ids : List MessageId) :
    (ids.foldl discard e).state.boards = e.state.boards ∧
      (ids.foldl discard e).state.outbox = e.state.outbox ∧ (ids.foldl discard e).now = e.now := by
  induction ids generalizing e with
  | nil => exact ⟨rfl, rfl, rfl⟩
  | cons id ids ih => exact ih (e.discard id)

/-- Every request is fetched, failed or refused. -/
theorem ContentStore.length_requests (store : ContentStore σ) (content : σ) (ids : List MessageId) :
    ids.length = (store.published content ids).countP (·.topic = .arrivals) +
      (store.published content ids).countP (·.topic = .fetchFailures) +
      (store.refused content ids).length := by
  induction ids generalizing content with
  | nil => rfl
  | cons id ids ih =>
    rw [List.length_cons, ih (store.fetch content id).1, published, refused]
    obtain ⟨m, -, -, hevent⟩ | ⟨e, reason, -, -, hevent⟩ | ⟨hevent, -⟩ :=
      eventOf?_cases id (store.fetch content id).2
    all_goals
      rw [hevent]
      simp [Event.topic]
      omega

namespace Host

open ContentStore

/-- What comes of a pass that leads from one host to another.

The store is asked for the requested messages and then given the queued ones, each in their order. The
boards stay; apart from the sweep and the outbox, all that happens to the state is that the refused
messages are settled. What becomes known of the requests goes onto the bus in their order. Each queued
message is tried once and its answer recorded in its entry, and the other entries stay. The numbers are
those of the answers. -/
structure Accounted (store : ContentStore σ) (h k : Host σ) (p : Pass) : Prop where
  content : k.content =
    store.sent (store.fetched h.content h.requested) h.engine.state.outbox.pending
  boards : k.engine.state.boards = h.engine.state.boards
  settled : k.engine =
    ((store.refused h.content h.requested).foldl Engine.discard h.engine.sweep.1).withOutbox
      k.engine.state.outbox
  bus : k.bus =
    (store.published h.content h.requested).foldl (fun b event => (b.publish event).1) h.bus
  requested : p.requested = h.requested.length
  fetched : p.fetched = (store.published h.content h.requested).countP (·.topic = .arrivals)
  failed : p.failed = (store.published h.content h.requested).countP (·.topic = .fetchFailures)
  rejected : p.rejected = (store.refused h.content h.requested).length
  requests : p.requested = p.fetched + p.failed + p.rejected
  distinct : (h.engine.state.outbox.pending.map (·.id)).Nodup
  tried : ∀ m ∈ h.engine.state.outbox.pending, ∃ entry answer,
    (m, answer) ∈ store.replies (store.fetched h.content h.requested) h.engine.state.outbox.pending ∧
      h.engine.state.outbox[m.id]? = some entry ∧ entry.message = m ∧ entry.state = .queued ∧
      k.engine.state.outbox[m.id]? = some (entry.tried h.engine.now answer)
  untried : ∀ id ∉ h.engine.state.outbox.pending.map (·.id),
    k.engine.state.outbox[id]? = h.engine.state.outbox[id]?
  published : p.published =
    (store.replies (store.fetched h.content h.requested) h.engine.state.outbox.pending).countP
      (·.2.isOk)
  attempts : p.published + p.publishFailed = h.engine.state.outbox.pending.length

variable {store : ContentStore σ} {h : Host σ}

/-- A pass makes its requests and then tries the messages that were queued before it. -/
theorem pass_eq (store : ContentStore σ) (hkeyed : h.engine.state.outbox.Keyed) :
    let h' := answered store { h with engine := h.engine.sweep.1 } h.requested
    let replies := store.replies h'.content h.engine.state.outbox.pending
    h.pass store =
      ({ h' with
          engine := h'.engine.withOutbox (h.engine.state.outbox.markedAll h.engine.now replies)
          content := store.sent h'.content h.engine.state.outbox.pending },
        { due := h.engine.sweep.2.eligible.length
          purged := h.engine.sweep.2.purged.length
          requested := h.requested.length
          fetched := (store.published h.content h.requested).countP (·.topic = .arrivals)
          failed := (store.published h.content h.requested).countP (·.topic = .fetchFailures)
          rejected := (store.refused h.content h.requested).length
          published := replies.countP (·.2.isOk)
          publishFailed := replies.countP (!·.2.isOk) }) := by
  intro h' replies
  obtain ⟨start, hstart⟩ : ∃ start : Pass, start =
    { due := h.engine.sweep.2.eligible.length, purged := h.engine.sweep.2.purged.length } := ⟨_, rfl⟩
  obtain ⟨after, hafter⟩ : ∃ after : Host σ × Pass, after = h.requested.foldl
    (fun (h, p) id => request store h p id) ({ h with engine := h.engine.sweep.1 }, start) := ⟨_, rfl⟩
  have hpass : h.pass store =
      after.1.engine.state.outbox.pending.foldl (fun (h, p) m => send store h p m) after := by
    subst hafter hstart
    rfl
  have hdiscard := h.engine.sweep.1.foldl_discard (store.refused h.content h.requested)
  have houtbox : h'.engine.state.outbox = h.engine.state.outbox := hdiscard.2.1
  have hnow : h'.engine.now = h.engine.now := hdiscard.2.2
  have hqueued : ∀ m ∈ h.engine.state.outbox.pending, h'.engine.state.outbox.isQueued m.id = true := by
    intro m hm
    obtain ⟨entry, hentry, -, hqueued⟩ := (Outbox.mem_pending hkeyed).1 hm
    rw [houtbox]
    exact Outbox.isQueued_iff.2 ⟨entry, hentry, hqueued⟩
  rw [hpass, hafter, foldl_request]
  show List.foldl _ (h', _) h'.engine.state.outbox.pending = _
  rw [houtbox, foldl_send (Outbox.nodup_pending hkeyed) hqueued, houtbox, hnow]
  refine Prod.ext rfl ?_
  simp only [hstart, Nat.zero_add]
  rfl

/-- In every state that can be attained and however the store answers, a pass accounts for every request
and for every queued message. -/
theorem accounted_pass (store : ContentStore σ) (hattained : h.engine.Attained) :
    Accounted store h (h.pass store).1 (h.pass store).2 := by
  have hkeyed := hattained.outbox_keyed
  have hreplies := map_fst_replies store (store.fetched h.content h.requested)
    h.engine.state.outbox.pending
  rw [pass_eq store hkeyed]
  exact {
    content := rfl
    boards := (h.engine.sweep.1.foldl_discard (store.refused h.content h.requested)).1
    settled := rfl
    bus := rfl
    requested := rfl
    fetched := rfl
    failed := rfl
    rejected := rfl
    requests := store.length_requests h.content h.requested
    distinct := Outbox.nodup_pending hkeyed
    tried := fun _ hm => hkeyed.tried hreplies hm
    untried := fun _ hid => Outbox.untried hreplies hid
    published := rfl
    attempts := store.length_replies _ h.engine.state.outbox.pending }

/-- The first reply of the ring waits for the second one and for the root of the thread, and an own
message is queued. The store gives the second reply, gives it for the root as well, and publishes
nothing for now. -/
theorem ring_accounted :
    let own : Message := .newThread (Board.Ring.messageId 3) "own" "" 2 {Board.Ring.board}
    let e := ((Engine.new {} .everyone 0).step (.receive Board.Ring.first none)).step (.queueOwn own)
    let script : IdMap (Except FetchError Message) :=
      (∅ : IdMap _).insert Board.Ring.root.id (.ok Board.Ring.second)
    let content := (script, { MemoryStore.empty.put Board.Ring.second with offline := true })
    let h : Host (IdMap (Except FetchError Message) × MemoryStore) := ⟨e, .new 4, content⟩
    let after := h.pass MemoryStore.calls.scripted
    h.engine.Attained ∧ h.requested = [Board.Ring.root.id, Board.Ring.second.id] ∧
      after.2 = { requested := 2, fetched := 1, rejected := 1, publishFailed := 1 } ∧
      after.1.engine.state.boards = h.engine.state.boards ∧
      ∃ entry answer, h.engine.state.outbox[own.id]? = some entry ∧
        after.1.engine.state.outbox[own.id]? = some (entry.tried h.engine.now answer) := by
  intro own e script content h after
  have hattained : h.engine.Attained :=
    .step (.queueOwn own) (.step (.receive Board.Ring.first none) (.new {} .everyone 0))
  have haccounted := accounted_pass MemoryStore.calls.scripted hattained
  have hpending : own ∈ h.engine.state.outbox.pending := by decide +kernel
  obtain ⟨entry, answer, -, hentry, -, -, htried⟩ := haccounted.tried own hpending
  exact ⟨hattained, by decide +kernel, by decide +kernel, haccounted.boards, entry, answer, hentry,
    htried⟩

end Host

end Noticeboard
