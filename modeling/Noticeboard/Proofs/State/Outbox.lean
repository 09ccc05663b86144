import Noticeboard.Proofs.Outbox
import Noticeboard.Proofs.State.Erased

/-!
# Own messages in a run

An own message is shown from the moment it is queued: at every time of a run, what the outbox has is
stored on every board that it targets (`State.ShowsOutbox`). It can be taken back while it is queued,
and then nothing is left of it. Once it is published its entry stays as it is, until its author is
deleted (`Engine.run_outbox`).
-/

namespace Noticeboard

namespace State

variable {s s' : State} {limits : Limits} {m : Message} {announcedBy : Option IdentityId}
  {b : BoardName} {x : MessageId}

/-! ## What operations leave alone -/

theorem outbox_receive (hnamed : ∀ b, (s.board b).name = b) :
    (s.receive limits m announcedBy).1.outbox = s.outbox :=
  (receive_keeps hnamed).1

theorem outbox_receiveList (s : State) (limits : ListLimits) (id : ListId)
    (references : List Announcement) (received : Timestamp) :
    (s.receiveList limits id references received).1.outbox = s.outbox := by
  obtain ⟨e, heq⟩ | ⟨-, lists, wanted, -, heq⟩ :=
    receiveList_cases s limits id references received
  · rw [heq]
  · rw [heq]

theorem mem_board_receive (hs : s.Sound) (hx : x ∈ (s.board b).messages) :
    x ∈ ((s.receive limits m announcedBy).1.board b).messages := by
  rw [board_receive hs.named]
  split
  · obtain ⟨y, hy⟩ := mem_iff_getElem?.1 hx
    exact mem_iff_getElem?.2 ⟨y, Board.messages_of_ingested hy⟩
  · exact hx

theorem mem_board_receive_of_valid (hs : s.Sound) (hauthor : s.isDeleted m.author = false)
    (hvalid : m.validate announcedBy limits = .ok ()) :
    x ∈ ((s.receive limits m announcedBy).1.board b).messages ↔
      x ∈ (s.board b).messages ∨ (x = m.id ∧ m.targets b = true) := by
  obtain ⟨boards, heq, hboards⟩ := receive_of_valid hs.named hauthor hvalid
  rw [heq]
  exact mem_board_filed hs.named hboards

/-! ## What is shown -/

/-- The outbox has each message under its id, and every board that the message targets stores the id. -/
def ShowsOutbox (s : State) : Prop :=
  ∀ (id : MessageId) (entry : OutboxEntry), s.outbox[id]? = some entry →
    entry.message.id = id ∧ ∀ b ∈ entry.message.boards, id ∈ (s.board b).messages

namespace ShowsOutbox

theorem keyed (h : s.ShowsOutbox) : s.outbox.Keyed := fun id entry hentry => (h id entry hentry).1

/-- No message is new in the outbox, and what it has stays on its boards. -/
theorem shrink (h : s.ShowsOutbox)
    (houtbox : ∀ (id : MessageId) (entry : OutboxEntry), s'.outbox[id]? = some entry →
      ∃ entry', s.outbox[id]? = some entry' ∧ entry.message = entry'.message)
    (hboards : ∀ id ∈ s'.outbox, ∀ b, id ∈ (s.board b).messages → id ∈ (s'.board b).messages) :
    s'.ShowsOutbox := by
  intro id entry hentry
  obtain ⟨entry', hentry', hmessage⟩ := houtbox id entry hentry
  rw [hmessage]
  obtain ⟨hid, hshown⟩ := h id entry' hentry'
  exact ⟨hid, fun b hb => hboards id (mem_iff_getElem?.2 ⟨entry, hentry⟩) b (hshown b hb)⟩

theorem congr (h : s.ShowsOutbox) (houtbox : s'.outbox = s.outbox)
    (hboards : ∀ b, s'.board b = s.board b) : s'.ShowsOutbox :=
  h.shrink (fun id entry hentry => ⟨entry, houtbox ▸ hentry, rfl⟩) fun id _ b hid => by
    rwa [hboards]

theorem receive (h : s.ShowsOutbox) (hs : s.Sound) (limits : Limits) (m : Message)
    (announcedBy : Option IdentityId) : (s.receive limits m announcedBy).1.ShowsOutbox := by
  refine h.shrink (fun id entry hentry => ⟨entry, ?_, rfl⟩) fun id _ b => mem_board_receive hs
  rwa [outbox_receive hs.named] at hentry

theorem deleteIdentity (h : s.ShowsOutbox) (hs : s.Sound) (identity : IdentityId) :
    (s.deleteIdentity identity).1.ShowsOutbox := by
  have houtbox (id : MessageId) : (s.deleteIdentity identity).1.outbox[id]? =
      if id.author = identity then none else s.outbox[id]? := Outbox.getElem?_removeAuthor
  refine h.shrink (fun id entry hentry => ?_) fun id hid b hstored => ?_
  · rw [houtbox, Option.ite_none_left_eq_some] at hentry
    exact ⟨entry, hentry.2, rfl⟩
  · obtain ⟨entry, hentry⟩ := mem_iff_getElem?.1 hid
    rw [houtbox, Option.ite_none_left_eq_some] at hentry
    exact (mem_board_deleteIdentity (hs.coherent b) identity).2 ⟨hentry.1, hstored⟩

theorem queueOwn (h : s.ShowsOutbox) (hs : s.Sound) (limits : Limits) (m : Message)
    (now : Timestamp) : (s.queueOwn limits m now).1.ShowsOutbox := by
  refine queueOwn_keep h fun hauthor hvalid id entry hentry => ?_
  have hqueued : State.Sound { s with outbox := s.outbox.queue m now } :=
    hs.congr (fun _ => rfl) rfl
  have hboards (b : BoardName) := mem_board_receive_of_valid (x := id) (b := b) hqueued hauthor hvalid
  have hentry : (s.outbox.queue m now)[id]? = some entry := by
    rwa [outbox_receive hqueued.named] at hentry
  rw [Outbox.getElem?_queue] at hentry
  split at hentry
  · next hnew =>
    obtain rfl := Option.some.inj hentry
    refine ⟨hnew.1, fun b hb => (hboards b).2 (.inr ⟨hnew.1.symm, ?_⟩)⟩
    exact Std.ExtTreeSet.mem_iff_contains.1 hb
  · obtain ⟨hid, hshown⟩ := h id entry hentry
    exact ⟨hid, fun b hb => (hboards b).2 (.inl (hshown b hb))⟩

theorem unsend (h : s.ShowsOutbox) (hs : s.Sound) (id : MessageId) :
    (s.unsend id).1.ShowsOutbox := by
  have houtbox {x : MessageId} {entry : OutboxEntry}
      (hentry : (s.outbox.erase id)[x]? = some entry) : x ≠ id ∧ s.outbox[x]? = some entry := by
    rwa [Std.ExtTreeMap.getElem?_erase, Option.ite_none_left_eq_some,
      Std.LawfulEqOrd.compare_eq_iff_eq, @eq_comm _ id] at hentry
  refine unsend_keep h ?_
  refine h.shrink (fun x entry hentry => ⟨entry, (houtbox hentry).2, rfl⟩) fun x hx b hstored => ?_
  obtain ⟨entry, hentry⟩ := mem_iff_getElem?.1 hx
  exact (mem_board_takeDown (s := { s with outbox := s.outbox.erase id }) (hs.coherent b).keyed
    id).2 ⟨(houtbox hentry).1, hstored⟩

/-- What is recorded of publishing leaves the messages. -/
theorem setOutbox (h : s.ShowsOutbox) {outbox : Outbox} {f : MessageId → OutboxEntry → OutboxEntry}
    (houtbox : ∀ x : MessageId, outbox[x]? = s.outbox[x]?.map (f x))
    (hf : ∀ x entry, (f x entry).message = entry.message) :
    State.ShowsOutbox { s with outbox } := by
  refine h.shrink (fun x entry hentry => ?_) fun _ _ _ hstored => hstored
  rw [houtbox] at hentry
  obtain ⟨entry, hold, rfl⟩ := Option.map_eq_some_iff.1 hentry
  exact ⟨entry, hold, hf x entry⟩

end ShowsOutbox

/-! ## Taking back -/

theorem unsend_of_queued {id : MessageId} {entry : OutboxEntry} (hs : s.Sound)
    (hentry : s.outbox[id]? = some entry) (hqueued : entry.state = .queued) :
    (s.unsend id).2 = .ok () ∧ id ∉ (s.unsend id).1.outbox ∧
      ∀ b, id ∉ ((s.unsend id).1.board b).messages := by
  obtain ⟨hnot, -⟩ | ⟨-, heq⟩ := unsend_cases s id
  · rw [Outbox.isQueued_iff.2 ⟨entry, hentry, hqueued⟩] at hnot
    cases hnot
  · rw [heq]
    refine ⟨rfl, by simp [takeDown], fun b hmem => ?_⟩
    exact ((mem_board_takeDown (s := { s with outbox := s.outbox.erase id }) (hs.coherent b).keyed
      id).1 hmem).1 rfl

theorem unsend_of_published {id : MessageId} {entry : OutboxEntry}
    (hentry : s.outbox[id]? = some entry) (hpublished : entry.state ≠ .queued) :
    s.unsend id = (s, .error (.alreadyPublished id)) := by
  have hstate : entry.isPublished = true := by
    rw [← Bool.not_eq_false, OutboxEntry.isPublished_eq_false]
    exact hpublished
  rw [unsend, hentry]
  simp only [hstate, if_true]

theorem unsend_of_unknown {id : MessageId} (hnone : id ∉ s.outbox) :
    s.unsend id = (s, .error (.notQueued id)) := by
  rw [unsend, Std.ExtTreeMap.getElem?_eq_none hnone]

end State

namespace Engine

variable {e : Engine} {id : MessageId} {entry : OutboxEntry}

theorem showsOutbox_step (hs : e.state.Sound) (h : e.state.ShowsOutbox) (op : Op) :
    (e.step op).state.ShowsOutbox := by
  cases op with
  | receive m announcedBy => exact h.receive hs e.config.validation m announcedBy
  | receiveList id references received =>
    exact h.congr (State.outbox_receiveList e.state e.config.lists id references received)
      (State.board_receiveList e.state e.config.lists id references received)
  | deleteIdentity identity => exact h.deleteIdentity hs identity
  | subscribe viewer name => exact h.congr rfl (State.board_subscribe e.state viewer name)
  | queueOwn m => exact h.queueOwn hs e.config.validation m e.now
  | unsend id => exact h.unsend hs id
  | markPublished id location =>
    refine h.setOutbox (fun x => Outbox.getElem?_markPublished location) fun x entry => ?_
    split <;> rfl
  | markPublishFailed id error =>
    refine h.setOutbox (fun x => Outbox.getElem?_markFailed error) fun x entry => ?_
    split <;> rfl
  | fail | sweep | discard | retainMarkers | unsubscribe | setClock =>
    exact h.congr rfl fun _ => rfl

/-- Nothing but the deletion of its author changes the entry of a published message. -/
theorem published_step (hs : e.state.Sound) (hentry : e.state.outbox[id]? = some entry)
    (hpublished : entry.state ≠ .queued) {op : Op} (hop : op ≠ .deleteIdentity id.author) :
    (e.step op).state.outbox[id]? = some entry := by
  cases op with
  | receive m announcedBy =>
    show (e.state.receive e.config.validation m announcedBy).1.outbox[id]? = some entry
    rwa [State.outbox_receive hs.named]
  | receiveList listId references received =>
    show (e.state.receiveList e.config.lists listId references received).1.outbox[id]? = some entry
    rwa [State.outbox_receiveList]
  | deleteIdentity identity =>
    show (e.state.outbox.removeAuthor identity)[id]? = some entry
    have hauthor : id.author ≠ identity := fun h => hop (congrArg _ h.symm)
    rwa [Outbox.getElem?_removeAuthor, if_neg hauthor]
  | queueOwn m =>
    have hknown : ¬(m.id = id ∧ m.id ∉ e.state.outbox) := by
      rintro ⟨rfl, hnew⟩
      exact hnew (mem_iff_getElem?.2 ⟨entry, hentry⟩)
    refine State.queueOwn_keep (p := fun s => s.outbox[id]? = some entry) hentry fun _ _ => ?_
    rw [State.outbox_receive (s := { e.state with outbox := e.state.outbox.queue m e.now }) hs.named]
    show (e.state.outbox.queue m e.now)[id]? = some entry
    rwa [Outbox.getElem?_queue, if_neg hknown]
  | unsend other =>
    -- What can be taken back is queued, so it is another message.
    show (e.state.unsend other).1.outbox[id]? = some entry
    obtain ⟨-, error, heq⟩ | ⟨hqueued, heq⟩ := State.unsend_cases e.state other
    · rwa [heq]
    · have hother : other ≠ id := by
        rintro rfl
        obtain ⟨queued, hsome, hstate⟩ := Outbox.isQueued_iff.1 hqueued
        rw [hentry, Option.some.injEq] at hsome
        exact hpublished (hsome ▸ hstate)
      rw [heq]
      show (e.state.outbox.erase other)[id]? = some entry
      rwa [Std.ExtTreeMap.getElem?_erase, if_neg (by simpa using hother)]
  | markPublished other location =>
    show (e.state.outbox.markPublished other location e.now).1[id]? = some entry
    rw [Outbox.getElem?_markPublished, hentry, Option.map_some, if_neg fun h => hpublished h.2]
  | markPublishFailed other error =>
    show (e.state.outbox.markFailed other error).1[id]? = some entry
    rw [Outbox.getElem?_markFailed, hentry, Option.map_some, if_neg fun h => hpublished h.2]
  | fail | sweep | discard | retainMarkers | subscribe | unsubscribe | setClock => exact hentry

theorem showsOutbox_run (config : EngineConfig) (trust : Trust) (now : Timestamp) (ops : List Op) :
    (run config trust now ops).state.ShowsOutbox := by
  suffices hfrom : ∀ e : Engine, e.state.Sound → e.state.ShowsOutbox →
      (e.steps ops).state.ShowsOutbox by
    exact hfrom (new config trust now) State.sound_empty fun id entry hentry => by
      simp [new, State.empty] at hentry
  induction ops with
  | nil => exact fun e _ h => h
  | cons op ops ih => exact fun e hs h => ih _ (sound_step hs op) (showsOutbox_step hs h op)

theorem published_steps (hs : e.state.Sound) (hentry : e.state.outbox[id]? = some entry)
    (hpublished : entry.state ≠ .queued) {ops : List Op}
    (hops : Op.deleteIdentity id.author ∉ ops) :
    (e.steps ops).state.outbox[id]? = some entry := by
  induction ops generalizing e with
  | nil => exact hentry
  | cons op ops ih =>
    obtain ⟨hop, hops⟩ := not_or.1 (mt List.mem_cons.2 hops)
    exact ih (sound_step hs op) (published_step hs hentry hpublished (Ne.symm hop)) hops

/-- What can be said of own messages at one time. All that the outbox has is shown. A message can be
taken back just if it is queued, which leaves nothing of it; an attempt to take back another changes
nothing and is answered with the reason. The messages to publish are the queued ones in their order. -/
structure TendsOutbox (e : Engine) : Prop where
  shown : e.state.ShowsOutbox
  unsend_ok_iff : ∀ id : MessageId, (e.unsend id).2 = .ok () ↔
    ∃ entry, e.state.outbox[id]? = some entry ∧ entry.state = .queued
  withdrawn : ∀ id : MessageId, (e.unsend id).2 = .ok () →
    id ∉ (e.unsend id).1.state.outbox ∧ ∀ b, id ∉ ((e.unsend id).1.state.board b).messages
  unknown : ∀ id ∉ e.state.outbox, e.unsend id = (e, .error (.notQueued id))
  published : ∀ (id : MessageId) (entry : OutboxEntry), e.state.outbox[id]? = some entry →
    entry.state ≠ .queued → e.unsend id = (e, .error (.alreadyPublished id))
  mem_pending : ∀ m, m ∈ e.state.outbox.pending ↔
    ∃ entry, e.state.outbox[m.id]? = some entry ∧ entry.message = m ∧ entry.state = .queued
  pending_ordered : e.state.outbox.pending.Pairwise e.state.outbox.Before

theorem tendsOutbox (hs : e.state.Sound) (h : e.state.ShowsOutbox) : e.TendsOutbox := by
  have hqueued {id : MessageId} {entry : OutboxEntry}
      (hentry : e.state.outbox[id]? = some entry) (hstate : entry.state = .queued) :=
    State.unsend_of_queued hs hentry hstate
  have hpublished (id : MessageId) (entry : OutboxEntry)
      (hentry : e.state.outbox[id]? = some entry) (hstate : entry.state ≠ .queued) :
      e.unsend id = (e, .error (.alreadyPublished id)) := by
    rw [unsend, State.unsend_of_published hentry hstate]
  have hunknown (id : MessageId) (hid : id ∉ e.state.outbox) :
      e.unsend id = (e, .error (.notQueued id)) := by
    rw [unsend, State.unsend_of_unknown hid]
  have hiff (id : MessageId) : (e.unsend id).2 = .ok () ↔
      ∃ entry, e.state.outbox[id]? = some entry ∧ entry.state = .queued := by
    refine ⟨fun hok => ?_, fun ⟨entry, hentry, hstate⟩ => (hqueued hentry hstate).1⟩
    cases hentry : e.state.outbox[id]? with
    | none =>
      rw [hunknown id (by simp [Std.ExtTreeMap.mem_iff_isSome_getElem?, hentry])] at hok
      cases hok
    | some entry =>
      refine ⟨entry, rfl, ?_⟩
      by_contra hstate
      rw [hpublished id entry hentry hstate] at hok
      cases hok
  refine ⟨h, hiff, fun id hok => ?_, hunknown, hpublished, fun m => Outbox.mem_pending h.keyed,
    Outbox.pairwise_pending h.keyed⟩
  obtain ⟨entry, hentry, hstate⟩ := (hiff id).1 hok
  exact (hqueued hentry hstate).2

/-- In every run, own messages are shown, and can be taken back, published and listed as they should
(`TendsOutbox`). Whatever comes after, the entry of a published message stays as it is for as long as
its author is not deleted; with the author it goes, for good. -/
theorem run_outbox (config : EngineConfig) (trust : Trust) (now : Timestamp)
    (before after : List Op) :
    let e := run config trust now before
    e.TendsOutbox ∧
    ∀ (id : MessageId) (entry : OutboxEntry), e.state.outbox[id]? = some entry →
      entry.state ≠ .queued →
      (Op.deleteIdentity id.author ∉ after →
        (e.steps after).state.outbox[id]? = some entry) ∧
      (Op.deleteIdentity id.author ∈ after → id ∉ (e.steps after).state.outbox) := by
  intro e
  have hs : e.state.Sound := sound_run config trust now before
  refine ⟨tendsOutbox hs (showsOutbox_run config trust now before),
    fun id entry hentry hpublished => ⟨published_steps hs hentry hpublished, fun hmem hid => ?_⟩⟩
  exact (erased_of_mem_steps hs hmem).outbox id hid rfl

/-- Two own messages are queued and one of them is published. It is not taken back, published anew or
queued again, and the deletion of another identity does not touch it. -/
theorem ring_published_once :
    let before : List Op := [.queueOwn Board.Ring.root, .queueOwn Board.Ring.second,
      .markPublished Board.Ring.root.id "archive"]
    let after : List Op := [.setClock 9, .unsend Board.Ring.root.id,
      .markPublished Board.Ring.root.id "elsewhere", .queueOwn Board.Ring.root,
      .deleteIdentity Board.Ring.second.author]
    let e := run {} .everyone 5 before
    e.state.outbox.pending = [Board.Ring.second] ∧
      (e.unsend Board.Ring.second.id).2 = .ok () ∧
      ∃ entry, e.state.outbox[Board.Ring.root.id]? = some entry ∧
        entry.state = .published "archive" 5 ∧
        (e.steps after).state.outbox[Board.Ring.root.id]? = some entry := by
  intro before after e
  -- With the run written out, no unification looks into it.
  subst e
  obtain ⟨htends, hstays⟩ := run_outbox {} .everyone 5 before after
  have hpending : (run {} .everyone 5 before).state.outbox.pending = [Board.Ring.second] := by
    decide +kernel
  obtain ⟨second, hsecond, -, hqueued⟩ :=
    (htends.mem_pending Board.Ring.second).1 (hpending ▸ List.mem_singleton_self _)
  obtain ⟨entry, hentry, hstate⟩ : ∃ entry,
      (run {} .everyone 5 before).state.outbox[Board.Ring.root.id]? = some entry ∧
        entry.state = .published "archive" 5 :=
    ⟨⟨Board.Ring.root, 5, .published "archive" 5, 1, none⟩, by decide +kernel, rfl⟩
  have hpublished : entry.state ≠ .queued := by simp [hstate]
  refine ⟨hpending, (htends.unsend_ok_iff Board.Ring.second.id).2 ⟨second, hsecond, hqueued⟩,
    entry, hentry, hstate, ?_⟩
  refine (hstays Board.Ring.root.id entry hentry hpublished).1 fun hmem => ?_
  have hauthor : Board.Ring.root.id.author ≠ Board.Ring.second.author := by decide
  simp [after, hauthor] at hmem

end Engine

end Noticeboard
