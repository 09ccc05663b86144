import Noticeboard.Proofs.Board.DeletedRoots
import Noticeboard.Proofs.State.Outbox

/-!
# Taking back undoes queueing

A run in which an own message is queued and taken back is compared with the same run without it. In
between the two go in step: the one is the other with the message filed as well
(`State.WithQueued`). Other arrivals keep this, since arrivals commute on every board
(`Board.Coherent.ingested_comm`), and taking the message back ends it
(`Board.Coherent.removed_ingested`).

A removal puts no deleted root back, so it matters that the id of the message is not among them. It is
not, because every deleted root is by a deleted identity (`State.RootsByDeleted`), by which nothing is
accepted.
-/

namespace Noticeboard

namespace State

variable {s s' : State}

/-! ## Deleted roots in a run -/

/-- Every deleted root is by a deleted identity. -/
def RootsByDeleted (s : State) : Prop :=
  ∀ b, ∀ k ∈ (s.board b).deletedRoots, s.isDeleted k.author = true

namespace RootsByDeleted

theorem shrink (h : s.RootsByDeleted)
    (hroots : ∀ b, ∀ k ∈ (s'.board b).deletedRoots, k ∈ (s.board b).deletedRoots)
    (hdeleted : s'.deleted = s.deleted) : s'.RootsByDeleted := by
  intro b k hk
  rw [isDeleted, hdeleted]
  exact h b k (hroots b k hk)

theorem congr (h : s.RootsByDeleted) (hboards : ∀ b, s'.board b = s.board b)
    (hdeleted : s'.deleted = s.deleted) : s'.RootsByDeleted :=
  h.shrink (fun b _ hk => hboards b ▸ hk) hdeleted

theorem receive (h : s.RootsByDeleted) (hs : s.Sound) (limits : Limits) (m : Message)
    (announcedBy : Option IdentityId) : (s.receive limits m announcedBy).1.RootsByDeleted := by
  refine h.shrink (fun b k hk => ?_) (receive_keeps hs.named).2
  rw [board_receive hs.named] at hk
  split at hk
  · exact Board.deletedRoots_ingested hk
  · exact hk

theorem receiveList (h : s.RootsByDeleted) (limits : ListLimits) (id : ListId)
    (references : List Announcement) (received : Timestamp) :
    (s.receiveList limits id references received).1.RootsByDeleted := by
  obtain ⟨e, heq⟩ | ⟨-, lists, wanted, -, heq⟩ :=
    receiveList_cases s limits id references received
  · rwa [heq]
  · rw [heq]
    exact h.congr (fun _ => rfl) rfl

theorem deleteIdentity (h : s.RootsByDeleted) (hs : s.Sound) (identity : IdentityId) :
    (s.deleteIdentity identity).1.RootsByDeleted := by
  intro b k hk
  rw [board_deleteIdentity, (hs.coherent b).mem_deletedRoots_removeAuthor] at hk
  refine (isDeleted_deleteIdentity s identity k.author).2 ?_
  obtain ⟨hk | ⟨hauthor, -⟩, -⟩ := hk
  · exact .inr (h b k hk)
  · exact .inl hauthor.symm

theorem queueOwn (h : s.RootsByDeleted) (hs : s.Sound) (limits : Limits) (m : Message)
    (now : Timestamp) : (s.queueOwn limits m now).1.RootsByDeleted := by
  refine queueOwn_keep h fun _ _ => ?_
  have hqueued : State.RootsByDeleted { s with outbox := s.outbox.queue m now } :=
    h.congr (fun _ => rfl) rfl
  exact hqueued.receive (hs.congr (fun _ => rfl) rfl) limits m (some m.author)

theorem unsend (h : s.RootsByDeleted) (hs : s.Sound) (id : MessageId) :
    (s.unsend id).1.RootsByDeleted := by
  refine unsend_keep h (h.shrink (fun b k hk => ?_) rfl)
  rw [board_takeDown] at hk
  have hremoved := ((hs.coherent b).mem_deletedRoots_removed id false).1 hk
  simpa using hremoved.1

end RootsByDeleted

end State

namespace Engine

variable {e : Engine}

theorem rootsByDeleted_step (h : e.state.RootsByDeleted) (hs : e.state.Sound) (op : Op) :
    (e.step op).state.RootsByDeleted := by
  cases op with
  | receive m announcedBy => exact h.receive hs e.config.validation m announcedBy
  | receiveList id references received => exact h.receiveList e.config.lists id references received
  | deleteIdentity identity => exact h.deleteIdentity hs identity
  | subscribe viewer name => exact h.congr (State.board_subscribe e.state viewer name) rfl
  | queueOwn m => exact h.queueOwn hs e.config.validation m e.now
  | unsend id => exact h.unsend hs id
  | fail | sweep | discard | retainMarkers | unsubscribe | markPublished | markPublishFailed
    | setClock => exact h.congr (fun _ => rfl) rfl

theorem rootsByDeleted_run (config : EngineConfig) (trust : Trust) (now : Timestamp)
    (ops : List Op) : (run config trust now ops).state.RootsByDeleted := by
  suffices hfrom : ∀ e : Engine, e.state.Sound → e.state.RootsByDeleted →
      (e.steps ops).state.RootsByDeleted by
    exact hfrom (new config trust now) State.sound_empty fun b k hk => by
      simp [new, State.board, State.empty, Board.empty] at hk
  induction ops with
  | nil => exact fun e _ h => h
  | cons op ops ih => exact fun e hs h => ih _ (sound_step hs op) (rootsByDeleted_step h hs op)

end Engine

/-! ## Two states in step -/

namespace State

variable {s s' : State} {m x : Message} {limits : Limits} {announcedBy : Option IdentityId}
  {now : Timestamp}

/-- The state `s'` is `s` with one message filed besides, which no board of `s` knows and which can be
taken back. -/
structure WithQueued (s : State) (m : Message) (s' : State) : Prop where
  boards : ∀ b, s'.boards[b]? =
    if m.targets b then some ((s.board b).ingested m) else s.boards[b]?
  deleted : s'.deleted = s.deleted
  queued : s'.outbox.isQueued m.id = true
  no_self : m.namesItself = false
  absent : ∀ b, m.id ∉ (s.board b).messages
  unmarked : ∀ b, m.id ∉ (s.board b).deletedRoots

namespace WithQueued

theorem board (h : s.WithQueued m s') (hs : s.Sound) (b : BoardName) :
    s'.board b = (s.board b).ingested m :=
  board_filed hs.named h.boards b

/-- Another arrival is treated alike in both states. -/
theorem receive (h : s.WithQueued m s') (hs : s.Sound) (hs' : s'.Sound) (hne : x.id ≠ m.id) :
    (s.receive limits x announcedBy).1.WithQueued m (s'.receive limits x announcedBy).1 := by
  have haccepts : s'.accepts limits x announcedBy = s.accepts limits x announcedBy := by
    rw [accepts, accepts, isDeleted, isDeleted, h.deleted]
  refine ⟨fun b => ?_, ?_, ?_, h.no_self, fun b hm => h.absent b ?_, fun b hm => h.unmarked b ?_⟩
  · rw [boards_receive hs'.named, boards_receive hs.named, board_receive hs.named, haccepts,
      h.board hs, h.boards]
    cases haccepted : s.accepts limits x announcedBy with
    | false => simp
    | true =>
      have hx := Message.namesItself_of_validate (accepts_iff.1 haccepted).2
      have hcomm := (hs.coherent b).ingested_comm h.no_self hx hne
      have hname (y : Message) (hy : y.targets b = false) (g : Board) (hg : g.name = b) :
          g.ingested y = g := Board.ingested_of_not_targets (by rwa [hg])
      cases htargets : m.targets b with
      | false => simp [hname m htargets _ (hs.named b)]
      | true =>
        cases hxtargets : x.targets b with
        | false => simp [hname x hxtargets _ (hs.named b)]
        | true => simp [hcomm]
  · rw [(receive_keeps hs'.named).2, (receive_keeps hs.named).2, h.deleted]
  · rw [outbox_receive hs'.named]
    exact h.queued
  · rw [board_receive hs.named, mem_iff_getElem?] at hm
    split at hm
    · rw [Board.getElem?_messages_ingested, if_neg fun hid => hne hid.1] at hm
      exact mem_iff_getElem?.2 hm
    · exact mem_iff_getElem?.2 hm
  · rw [board_receive hs.named] at hm
    split at hm
    · exact Board.deletedRoots_ingested hm
    · exact hm

/-- Taking the message back ends it. -/
theorem unsend (h : s.WithQueued m s') (hs : s.Sound) :
    (s'.unsend m.id).2 = .ok () ∧ ∀ b, (s'.unsend m.id).1.boards[b]? =
      s.boards[b]?.or (if m.targets b then some (.empty b) else none) := by
  obtain ⟨hnot, -⟩ | ⟨-, heq⟩ := unsend_cases s' m.id
  · rw [h.queued] at hnot
    cases hnot
  rw [heq]
  refine ⟨rfl, fun b => ?_⟩
  have hboards : (State.takeDown { s' with outbox := s'.outbox.erase m.id } m.id).boards[b]? =
      s'.boards[b]?.map (·.removed m.id false) := boards_takeDown _ m.id b
  have hremoved := (hs.coherent b).removed_ingested h.no_self (h.absent b) (h.unmarked b)
  rw [hboards, h.boards]
  cases htargets : m.targets b with
  | true =>
    rw [if_pos rfl, if_pos rfl, Option.map_some, hremoved, State.board]
    cases s.boards[b]? <;> rfl
  | false =>
    rw [Board.ingested_of_not_targets (by rwa [hs.named])] at hremoved
    rw [if_neg Bool.false_ne_true, if_neg Bool.false_ne_true, Option.or_none]
    cases hg : s.boards[b]? with
    | none => rfl
    | some g => rw [Option.map_some, ← board_eq hg, hremoved]

end WithQueued

/-- An accepted message that was unknown is queued and filed besides. -/
theorem withQueued_queueOwn (hs : s.Sound) (hroots : s.RootsByDeleted)
    (hstored : s.isStored m.id = false) (houtbox : m.id ∉ s.outbox) {a : Arrival}
    (haccepted : (s.queueOwn limits m now).2 = .ok a) :
    s.WithQueued m (s.queueOwn limits m now).1 := by
  obtain ⟨error, heq⟩ | ⟨hauthor, hvalid, heq⟩ := queueOwn_cases s limits m now
  · rw [heq] at haccepted
    cases haccepted
  have hqueued : State.Sound { s with outbox := s.outbox.queue m now } := hs.congr (fun _ => rfl) rfl
  obtain ⟨boards, hreceive, hboards⟩ := receive_of_valid hqueued.named hauthor hvalid
  rw [heq, hreceive]
  refine ⟨hboards, rfl, ?_, Message.namesItself_of_validate hvalid, fun b hm => ?_, fun b hm => ?_⟩
  · have hentry : (s.outbox.queue m now)[m.id]? = _ :=
      Outbox.getElem?_queue.trans (if_pos ⟨rfl, houtbox⟩)
    exact Outbox.isQueued_iff.2 ⟨_, hentry, rfl⟩
  · rw [isStored_iff.2 ⟨b, hm⟩] at hstored
    cases hstored
  · have hdeleted : s.isDeleted m.author = true := hroots b m.id hm
    rw [hauthor] at hdeleted
    cases hdeleted

end State

/-! ## Two runs in step -/

namespace Engine

variable {e e' : Engine} {m : Message}

/-- The arrivals of several messages, each with the identity that announced it. -/
def arrivals (l : List (Message × Option IdentityId)) : List Op :=
  l.map fun x => .receive x.1 x.2

theorem withQueued_steps (h : e.state.WithQueued m e'.state) (hs : e.state.Sound)
    (hs' : e'.state.Sound) (hconfig : e'.config = e.config)
    {l : List (Message × Option IdentityId)} (hl : ∀ x ∈ l, x.1.id ≠ m.id) :
    (e.steps (arrivals l)).state.WithQueued m (e'.steps (arrivals l)).state := by
  induction l generalizing e e' with
  | nil => exact h
  | cons x l ih =>
    obtain ⟨hx, hl⟩ := List.forall_mem_cons.1 hl
    have hstep : (e.step (.receive x.1 x.2)).state.WithQueued m
        (e'.step (.receive x.1 x.2)).state := by
      show (e.state.receive e.config.validation x.1 x.2).1.WithQueued m
        (e'.state.receive e'.config.validation x.1 x.2).1
      rw [hconfig]
      exact h.receive hs hs' hx
    exact ih hstep (sound_step hs _) (sound_step hs' _) hconfig hl

/-- Taking back an own message undoes its queueing. Whatever the run was, if a message that no board
and not the outbox has is accepted, and others arrive, then it can be taken back, and every board is as
it would be without the message. The boards that are tracked because of it alone are empty. -/
theorem run_unsend (config : EngineConfig) (trust : Trust) (now : Timestamp) (before : List Op)
    (m : Message) (l : List (Message × Option IdentityId)) :
    let e := run config trust now before
    let sent := (e.queueOwn m).1.steps (arrivals l)
    let never := e.steps (arrivals l)
    e.state.isStored m.id = false → m.id ∉ e.state.outbox → (∃ a, (e.queueOwn m).2 = .ok a) →
      (∀ x ∈ l, x.1.id ≠ m.id) →
      (sent.unsend m.id).2 = .ok () ∧
        (∀ b, (sent.unsend m.id).1.state.board b = never.state.board b) ∧
        ∀ b, (sent.unsend m.id).1.state.boards[b]? =
          never.state.boards[b]?.or (if m.targets b then some (.empty b) else none) := by
  intro e sent never hstored houtbox ⟨a, haccepted⟩ hl
  have hs : e.state.Sound := sound_run config trust now before
  have hqueued : e.state.WithQueued m (e.queueOwn m).1.state :=
    State.withQueued_queueOwn hs (rootsByDeleted_run config trust now before) hstored houtbox haccepted
  have hend : never.state.WithQueued m sent.state :=
    withQueued_steps hqueued hs (sound_step hs (.queueOwn m)) rfl hl
  obtain ⟨hok, hboards⟩ := hend.unsend (sound_steps hs (arrivals l))
  refine ⟨hok, fun b => ?_, hboards⟩
  have hboard : (sent.unsend m.id).1.state.boards[b]?.getD (.empty b) =
      never.state.boards[b]?.getD (.empty b) := by
    rw [show (sent.unsend m.id).1.state.boards[b]? = _ from hboards b]
    cases never.state.boards[b]? with
    | some g => rfl
    | none => cases m.targets b <;> rfl
  exact hboard

/-- The second of the ring is queued below the root, where it leaves a ghost for the first. The first
fills the ghost and is cut off from the second, with which it closes a loop. When the second is taken
back, the first hangs under a ghost of it, as if the second had never been there. -/
theorem ring_unsend :
    let before : List Op := [.receive Board.Ring.root none]
    let l : List (Message × Option IdentityId) := [(Board.Ring.first, none)]
    let e := run {} .everyone 5 before
    let sent := (e.queueOwn Board.Ring.second).1.steps (arrivals l)
    let never := e.steps (arrivals l)
    (sent.state.board Board.Ring.board).ghostIds.toList = [] ∧
      (sent.unsend Board.Ring.second.id).2 = .ok () ∧
      (sent.unsend Board.Ring.second.id).1.state.board Board.Ring.board =
        never.state.board Board.Ring.board ∧
      (never.state.board Board.Ring.board).ghostIds.toList = [Board.Ring.second.id] := by
  intro before l e sent never
  -- With the runs written out, no unification looks into them.
  subst never sent e
  let report : IngestReport :=
    { board := Board.Ring.board, message := Board.Ring.second.id, outcome := .inserted,
      ghostsCreated := [Board.Ring.first.id] }
  have hstored : (run {} .everyone 5 before).state.isStored Board.Ring.second.id = false := by
    decide +kernel
  have houtbox : Board.Ring.second.id ∉ (run {} .everyone 5 before).state.outbox := by
    decide +kernel
  have haccepted : ∃ a, ((run {} .everyone 5 before).queueOwn Board.Ring.second).2 = .ok a :=
    ⟨⟨Board.Ring.second.id, [report]⟩, by decide +kernel⟩
  obtain ⟨hok, hboards, -⟩ := run_unsend {} .everyone 5 before Board.Ring.second l hstored houtbox
    haccepted (by decide)
  exact ⟨by decide +kernel, hok, hboards Board.Ring.board, by decide +kernel⟩

end Engine

end Noticeboard
