import Noticeboard.Proofs.State.Run

/-!
# Copies of a message

A message is stored once on each board that it targets. If an id always stands for the same message
(`Engine.Consistent`), every message that some board stores is stored on all the boards that it
targets, and all copies are equal (`State.Shared`).

Each board looks for duplicates by itself. So a message delivered again with other boards is still
filed on those that do not have its id (`Engine.receive_boards_iff`).
-/

namespace Noticeboard

/-- No two of the messages have the same id. -/
def OnePerId (ms : List Message) : Prop := ∀ m ∈ ms, ∀ m' ∈ ms, m.id = m'.id → m = m'

instance (ms : List Message) : Decidable (OnePerId ms) :=
  inferInstanceAs (Decidable (∀ m ∈ ms, ∀ m' ∈ ms, _))

namespace Engine

/-- The message that an operation delivers. -/
def Op.message? : Op → Option Message
  | .receive m _ => some m
  | .queueOwn m => some m
  | _ => none

/-- The messages that some operations deliver. -/
def delivered (ops : List Op) : List Message := ops.filterMap Op.message?

/-- An id always stands for the same message. -/
def Consistent (ops : List Op) : Prop := OnePerId (delivered ops)

instance (ops : List Op) : Decidable (Consistent ops) :=
  inferInstanceAs (Decidable (OnePerId (delivered ops)))

end Engine

namespace State

variable {s s' : State} {m x : Message} {limits : Limits} {announcedBy : Option IdentityId}
  {b b' : BoardName} {id : MessageId} {ms : List Message}

/-- A board stores a message. -/
def Stores (s : State) (b : BoardName) (m : Message) : Prop := (s.board b).messages[m.id]? = some m

instance (s : State) (b : BoardName) (m : Message) : Decidable (s.Stores b m) :=
  inferInstanceAs (Decidable (_ = _))

namespace Sound

theorem stores_of_getElem? (h : s.Sound) (hx : (s.board b).messages[id]? = some x) :
    s.Stores b x ∧ x.id = id := by
  have hid := (h.coherent b).keyed id x hx
  exact ⟨by rwa [Stores, hid], hid⟩

theorem targets (h : s.Sound) (hx : s.Stores b x) : x.targets b = true :=
  h.named b ▸ (h.coherent b).targets x.id x hx

end Sound

theorem mem_boards_of_stores (hx : s.Stores b x) : s.boards[b]? = some (s.board b) :=
  mem_boards_of_stored (mem_iff_getElem?.2 ⟨x, hx⟩)

theorem isStored_iff_message? : s.isStored id = true ↔ ∃ x, s.message? id = some x := by
  rw [← Option.isSome_iff_exists, message?, isStored, any_iff, List.isSome_findSome?,
    List.any_eq_true]
  simp only [Prod.exists, Std.ExtTreeMap.mem_toList_iff_getElem?_eq_some, Board.contains,
    Std.ExtTreeMap.contains_eq_isSome_getElem?]

/-- What is found by an id is stored under it on some board. -/
theorem stores_of_message? (h : s.Sound) (hm : s.message? id = some m) :
    m.id = id ∧ ∃ b, s.Stores b m := by
  obtain ⟨⟨b, g⟩, hg, hm⟩ := List.exists_of_findSome?_eq_some hm
  have hg := board_eq (Std.ExtTreeMap.mem_toList_iff_getElem?_eq_some.1 hg)
  obtain ⟨hstores, hid⟩ := h.stores_of_getElem? (hg ▸ hm)
  exact ⟨hid, b, hstores⟩

/-! ## What the operations do to stored messages -/

theorem stores_filed (h : s.Sound) {boards : BoardMap Board}
    (hboards : ∀ b, boards[b]? = if m.targets b then some ((s.board b).ingested m) else s.boards[b]?)
    (hone : ∀ b x, s.Stores b x → x.id = m.id → x = m) :
    ({ s with boards }.settle m.id).Stores b x ↔ s.Stores b x ∨ (x = m ∧ m.targets b = true) := by
  rw [Stores, board_filed h.named hboards, Stores]
  cases htargets : m.targets b with
  | false =>
    rw [Board.ingested_of_not_targets (by rwa [h.named])]
    simp
  | true =>
    rw [Board.messages_ingested (by rwa [h.named]) fun y hy => ?_]
    · grind
    · obtain ⟨hy, hid⟩ := h.stores_of_getElem? hy
      exact hone b y hy hid

theorem stores_deleteIdentity (h : s.Sound) (identity : IdentityId) :
    (s.deleteIdentity identity).1.Stores b x ↔ s.Stores b x ∧ x.author ≠ identity := by
  rw [Stores, board_deleteIdentity, ((h.coherent b).removeAuthor identity).2.2.1, Message.author,
    Stores]
  split <;> simp [*]

theorem stores_takeDown (h : s.Sound) (id : MessageId) :
    (s.takeDown id).Stores b x ↔ s.Stores b x ∧ x.id ≠ id := by
  rw [Stores, board_takeDown, Board.messages_removed (h.coherent b).keyed,
    Std.ExtTreeMap.getElem?_erase, Stores]
  simp only [Std.LawfulEqOrd.compare_eq_iff_eq, @eq_comm _ id]
  split <;> simp [*]

/-! ## One message for each id -/

/-- Stored messages are among the given ones, one for each id, and on each board that they target. -/
structure Shared (s : State) (ms : List Message) : Prop where
  one : OnePerId ms
  known : ∀ b m, s.Stores b m → m ∈ ms
  spread : ∀ b m, s.Stores b m → ∀ b', m.targets b' = true → s.Stores b' m

theorem shared_empty (hone : OnePerId ms) : empty.Shared ms := by
  have hnone (b : BoardName) (m : Message) : ¬ empty.Stores b m := by
    simp [Stores, board, empty, Board.empty]
  exact ⟨hone, fun b m hm => absurd hm (hnone b m), fun b m hm => absurd hm (hnone b m)⟩

namespace Shared

/-- All copies of a message are equal. -/
theorem eq_of_id_eq (h : s.Shared ms) (hm : s.Stores b m) (hx : s.Stores b' x)
    (hid : x.id = m.id) : x = m :=
  h.one x (h.known b' x hx) m (h.known b m hm) hid

theorem congr (h : s.Shared ms) (hboards : ∀ b, s'.board b = s.board b) : s'.Shared ms := by
  refine ⟨h.one, ?_, ?_⟩
  · simpa only [Stores, hboards] using h.known
  · simpa only [Stores, hboards] using h.spread

theorem receive (h : s.Shared ms) (hs : s.Sound) (limits : Limits) (hm : m ∈ ms)
    (announcedBy : Option IdentityId) : (s.receive limits m announcedBy).1.Shared ms := by
  obtain ⟨-, heq⟩ | ⟨-, e, -, heq⟩ | ⟨-, -, boards, reports, heq, hboards⟩ :=
    receive_cases hs.named limits m announcedBy
  · rw [heq]
    exact h
  · rw [heq]
    exact h.congr fun _ => rfl
  · rw [heq]
    have hstores {b : BoardName} {x : Message} := stores_filed (b := b) (x := x) hs hboards
      fun b x hx hid => h.one x (h.known b x hx) m hm hid
    refine ⟨h.one, fun b x hx => ?_, fun b x hx b' hb' => ?_⟩
    · rcases hstores.1 hx with hx | ⟨rfl, -⟩
      · exact h.known b x hx
      · exact hm
    · rcases hstores.1 hx with hx | ⟨rfl, -⟩
      · exact hstores.2 (.inl (h.spread b x hx b' hb'))
      · exact hstores.2 (.inr ⟨rfl, hb'⟩)

theorem deleteIdentity (h : s.Shared ms) (hs : s.Sound) (identity : IdentityId) :
    (s.deleteIdentity identity).1.Shared ms := by
  refine ⟨h.one, fun b x hx => ?_, fun b x hx b' hb' => ?_⟩
  · exact h.known b x ((stores_deleteIdentity hs identity).1 hx).1
  · obtain ⟨hx, ha⟩ := (stores_deleteIdentity hs identity).1 hx
    exact (stores_deleteIdentity hs identity).2 ⟨h.spread b x hx b' hb', ha⟩

theorem takeDown (h : s.Shared ms) (hs : s.Sound) (id : MessageId) : (s.takeDown id).Shared ms := by
  refine ⟨h.one, fun b x hx => ?_, fun b x hx b' hb' => ?_⟩
  · exact h.known b x ((stores_takeDown hs id).1 hx).1
  · obtain ⟨hx, hid⟩ := (stores_takeDown hs id).1 hx
    exact (stores_takeDown hs id).2 ⟨h.spread b x hx b' hb', hid⟩

theorem queueOwn (h : s.Shared ms) (hs : s.Sound) (limits : Limits) (hm : m ∈ ms)
    (now : Timestamp) : (s.queueOwn limits m now).1.Shared ms := by
  have hqueued : State.Shared { s with outbox := s.outbox.queue m now } ms := h.congr fun _ => rfl
  exact queueOwn_keep (p := (·.Shared ms)) h fun _ _ =>
    hqueued.receive (hs.congr (fun _ => rfl) rfl) limits hm (some m.author)

theorem unsend (h : s.Shared ms) (hs : s.Sound) (id : MessageId) :
    (s.unsend id).1.Shared ms := by
  have herased : State.Shared { s with outbox := s.outbox.erase id } ms := h.congr fun _ => rfl
  exact unsend_keep (p := (·.Shared ms)) h (herased.takeDown (hs.congr (fun _ => rfl) rfl) id)

/-- Looking for a message finds the copy that all boards have. -/
theorem message?_eq (h : s.Shared ms) (hs : s.Sound) (hm : s.Stores b m) :
    s.message? m.id = some m := by
  have hstored : s.isStored m.id = true := isStored_iff.2 ⟨b, mem_iff_getElem?.2 ⟨m, hm⟩⟩
  obtain ⟨x, hx⟩ := isStored_iff_message?.1 hstored
  obtain ⟨hid, b', hx'⟩ := stores_of_message? hs hx
  rw [hx, h.eq_of_id_eq hm hx' hid]

end Shared

/-! ## Redelivery -/

/-- The boards stay as they are just if the message is not accepted, or each board that it targets has
its id. -/
theorem boards_receive_eq_iff (h : s.Sound) (limits : Limits) (m : Message)
    (announcedBy : Option IdentityId) :
    (s.receive limits m announcedBy).1.boards = s.boards ↔ s.isDeleted m.author = true ∨
      m.validate announcedBy limits ≠ .ok () ∨
        ∀ b, m.targets b = true → m.id ∈ (s.board b).messages := by
  obtain ⟨hauthor, heq⟩ | ⟨-, e, hvalid, heq⟩ | ⟨hauthor, hvalid, boards, reports, heq, hboards⟩ :=
    receive_cases h.named limits m announcedBy
  · rw [heq]
    exact iff_of_true rfl (.inl hauthor)
  · rw [heq]
    exact iff_of_true rfl (.inr (.inl (by simp [hvalid])))
  · rw [heq, hauthor, hvalid]
    simp only [Bool.false_eq_true, ne_eq, not_true_eq_false, false_or]
    change boards = s.boards ↔ _
    constructor
    · intro hsame b hb
      have hstored : m.id ∈ ((s.board b).ingested m).messages :=
        (Board.mem_messages_ingested (by rwa [h.named])).2 (.inl rfl)
      have hg := (hboards b).symm.trans (congrArg (·[b]?) hsame)
      rw [if_pos hb] at hg
      rwa [board_eq hg.symm]
    · intro hall
      refine Std.ExtTreeMap.ext_getElem? fun b => ?_
      rw [hboards]
      split
      · next hb =>
        obtain ⟨x, hx⟩ := mem_iff_getElem?.1 (hall b hb)
        rw [mem_boards_of_stored (hall b hb), Board.ingested_of_stored hx]
      · rfl

end State

namespace Engine

variable {e : Engine} {ms : List Message}

theorem shared_step (hs : e.state.Sound) (h : e.state.Shared ms) {op : Op}
    (hop : ∀ m ∈ op.message?, m ∈ ms) : (e.step op).state.Shared ms := by
  cases op with
  | receive m announcedBy =>
    exact h.receive hs e.config.validation (hop m rfl) announcedBy
  | receiveList id references received =>
    exact h.congr fun b =>
      State.board_receiveList e.state e.config.lists id references received b
  | deleteIdentity identity => exact h.deleteIdentity hs identity
  | subscribe viewer name => exact h.congr fun b => State.board_subscribe e.state viewer name b
  | queueOwn m => exact h.queueOwn hs e.config.validation (hop m rfl) e.now
  | unsend id => exact h.unsend hs id
  | fail | sweep | discard | retainMarkers | unsubscribe | markPublished | markPublishFailed
    | setClock => exact h.congr fun _ => rfl

theorem shared_steps (hs : e.state.Sound) (h : e.state.Shared ms) {ops : List Op}
    (hops : ∀ m ∈ delivered ops, m ∈ ms) : (e.steps ops).state.Shared ms := by
  induction ops generalizing e with
  | nil => exact h
  | cons op ops ih =>
    refine ih (sound_step hs op) (shared_step hs h fun m hm => hops m ?_) fun m hm => hops m ?_
    · exact List.mem_filterMap.2 ⟨op, List.mem_cons_self, hm⟩
    · obtain ⟨op', hop', hm⟩ := List.mem_filterMap.1 hm
      exact List.mem_filterMap.2 ⟨op', List.mem_cons_of_mem op hop', hm⟩

theorem shared_run (config : EngineConfig) (trust : Trust) (now : Timestamp) {ops : List Op}
    (hone : Consistent ops) : (run config trust now ops).state.Shared (delivered ops) :=
  shared_steps State.sound_empty (State.shared_empty hone) fun _ hm => hm

/-- When a delivery under a stored id leaves all boards as they are: if it is refused, or rejected, or
each board that it targets has the id. Where an id always stands for the same message all boards have
the same copies, which are those that are found by id. -/
theorem receive_boards_iff (config : EngineConfig) (trust : Trust) (now : Timestamp) (ops : List Op)
    (m : Message) (announcedBy : Option IdentityId) :
    let e := run config trust now ops
    ((e.receive m announcedBy).1.state.boards = e.state.boards ↔
      e.state.isDeleted m.author = true ∨ m.validate announcedBy config.validation ≠ .ok () ∨
        ∀ b, m.targets b = true → m.id ∈ (e.state.board b).messages) ∧
    (Consistent ops → ∀ b x, e.state.Stores b x →
      e.state.message? x.id = some x ∧ ∀ b', x.targets b' = true → e.state.Stores b' x) := by
  intro e
  have hsound := sound_run config trust now ops
  have hconfig : e.config = config := config_steps _ ops
  refine ⟨?_, fun hone b x hx => ?_⟩
  · rw [← hconfig]
    exact State.boards_receive_eq_iff hsound e.config.validation m announcedBy
  · have hshared := shared_run config trust now hone
    exact ⟨hshared.message?_eq hsound hx, hshared.spread b x hx⟩

/-- The root of the ring is delivered again to its board with another text, which changes nothing. -/
theorem ring_boards_kept :
    let e := run {} .everyone 0 [.receive Board.Ring.root none]
    let m : Message := { Board.Ring.root with body := "again" }
    e.state.isStored m.id = true ∧ (e.receive m none).1.state.boards = e.state.boards ∧
      e.state.message? m.id = some Board.Ring.root := by
  intro e m
  obtain ⟨hboards, hcopies⟩ :=
    receive_boards_iff {} .everyone 0 [.receive Board.Ring.root none] m none
  refine ⟨by decide +kernel, hboards.2 (.inr (.inr fun b hb => ?_)), ?_⟩
  · obtain rfl : Board.Ring.board = b := by
      simpa [m, Message.targets, Board.Ring.root, Message.newThread] using hb
    decide +kernel
  · exact (hcopies (by decide) Board.Ring.board Board.Ring.root (by decide +kernel)).1

/-- The root of the ring is delivered again to another board, which files it: two boards hold
different messages under one id, of which a snapshot keeps only one. -/
theorem ring_copies_differ :
    let e := run {} .everyone 0 [.receive Board.Ring.root none]
    let other : BoardName := ⟨"sing", by decide⟩
    let m : Message := { Board.Ring.root with boards := {other} }
    let e' := (e.receive m none).1
    e.state.isStored m.id = true ∧ e'.state.boards ≠ e.state.boards ∧
      e'.state.Stores Board.Ring.board Board.Ring.root ∧ e'.state.Stores other m ∧
      e'.snapshot.messages = [Board.Ring.root] := by
  intro e other m e'
  decide +kernel

end Engine

end Noticeboard
