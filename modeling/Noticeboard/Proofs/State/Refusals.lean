import Noticeboard.Proofs.State.Restart

/-!
# Refused requests

A request that is refused leaves the state as it was. There is one exception: a message whose content
is rejected counts as downloaded from then on, and a failed fetch of it is forgotten
(`State.RejectedTo`).

A message is filed on its boards one after another, and each board may refuse it. That would leave it
on some of its boards. It does not happen: each board goes by the name that it is kept under
(`State.Named`), so it takes the messages that target it, and no deletion comes in between
(`Engine.Reachable.refused`).
-/

namespace Noticeboard

namespace Board

theorem name_foldl {α : Type} {f : Board → α → Board} (hf : ∀ g a, (f g a).name = g.name)
    (l : List α) (g : Board) : (l.foldl f g).name = g.name := by
  induction l generalizing g with
  | nil => rfl
  | cons a l ih => exact (ih (f g a)).trans (hf g a)

theorem name_removeAuthor (g : Board) (author : IdentityId) :
    (g.removeAuthor author).1.name = g.name := by
  show (g.removeAll (g.authored author)).1.name = g.name
  rw [removeAll_fst]
  exact name_foldl (fun g id => name_removed g id true) _ g

theorem name_markDeletedRoot (g : Board) (k : MessageId) : (g.markDeletedRoot k).1.name = g.name := by
  rw [markDeletedRoot]
  split
  · split <;> rfl
  · rfl

theorem name_rebuild (name : BoardName) (ms : List Message) (roots : List MessageId) :
    (rebuild name ms roots).name = name := by
  rw [rebuild, name_foldl name_markDeletedRoot, name_foldl name_ingested, empty]

end Board

namespace State

variable {s s' : State} {m : Message} {limits : Limits} {announcedBy : Option IdentityId}
  {id : MessageId}

/-! ## Names of boards -/

/-- Each board goes by the name that it is kept under. -/
def Named (s : State) : Prop := ∀ b, (s.board b).name = b

theorem named_empty : empty.Named := by
  intro b
  rw [board, empty, Std.ExtTreeMap.getElem?_empty, Option.getD_none, Board.empty]

namespace Named

theorem congr (h : s.Named) (hboards : ∀ b, s'.board b = s.board b) : s'.Named := by
  intro b
  rw [hboards]
  exact h b

theorem receive (h : s.Named) (limits : Limits) (m : Message) (announcedBy : Option IdentityId) :
    (s.receive limits m announcedBy).1.Named := by
  intro b
  rw [board_receive h]
  split
  · rw [Board.name_ingested, h b]
  · exact h b

theorem queueOwn (h : s.Named) (limits : Limits) (m : Message) (now : Timestamp) :
    (s.queueOwn limits m now).1.Named := by
  have hqueued : State.Named { s with outbox := s.outbox.queue m now } := h
  exact queueOwn_keep h fun _ _ => hqueued.receive limits m (some m.author)

theorem deleteIdentity (h : s.Named) (identity : IdentityId) :
    (s.deleteIdentity identity).1.Named := by
  intro b
  rw [board_deleteIdentity, Board.name_removeAuthor]
  exact h b

theorem unsend (h : s.Named) (id : MessageId) : (s.unsend id).1.Named := by
  refine unsend_keep h fun b => ?_
  rw [board_takeDown, Board.name_removed]
  exact h b

theorem restore (h : s.Named) (p : Snapshot) : (s.restore p).1.Named := by
  rw [State.restore]
  split
  · exact h
  · intro b
    obtain ⟨roots, heq⟩ := rebuilt_board p b
    show ((rebuiltBoards p)[b]?.getD (.empty b)).name = b
    rw [heq, Board.name_rebuild]

end Named

/-! ## Rejected content -/

/-- All that differs between the states is that a message counts as downloaded in the second one, and
that no failed fetch of it is on record. -/
structure RejectedTo (s s' : State) (id : MessageId) : Prop where
  boards : s'.boards = s.boards
  downloaded : ∀ x, x ∈ s'.lists.downloaded ↔ x = id ∨ x ∈ s.lists.downloaded
  /-- A list stays as it was but for the flags on references to the message. -/
  lists : ∀ k : ListId, s'.lists.lists[k]? = s.lists.lists[k]? ∨
    s'.lists.lists[k]? = s.lists.lists[k]?.map (ListIndex.flag id)
  announced : s'.lists.announced = s.lists.announced
  markers : ∀ subject : Subject, s'.markers[subject]? =
    if subject = .message id then none else s.markers[subject]?
  subscriptions : s'.subscriptions = s.subscriptions
  outbox : s'.outbox = s.outbox
  deleted : s'.deleted = s.deleted

theorem rejectedTo_settle (s : State) (id : MessageId) : s.RejectedTo (s.settle id) id where
  boards := rfl
  downloaded _ := ListIndex.mem_downloaded_markDownloaded
  lists k := by
    show (s.lists.markDownloaded id).1.lists[k]? = _ ∨ (s.lists.markDownloaded id).1.lists[k]? = _
    rw [ListIndex.markDownloaded]
    split
    · exact .inl rfl
    · rw [ListIndex.getElem?_foldl_modify]
      split
      · exact .inr rfl
      · exact .inl rfl
  announced := ListIndex.announced_markDownloaded s.lists id
  markers subject := by
    show (s.markers.erase (.message id))[subject]? = _
    simp only [Std.ExtTreeMap.getElem?_erase, Std.LawfulEqOrd.compare_eq_iff_eq,
      @eq_comm _ (Subject.message id)]
  subscriptions := rfl
  outbox := rfl
  deleted := rfl

end State

namespace Engine

variable {e : Engine}

/-! ## Requests -/

/-- The engines that operations and snapshots, whatever these hold, can lead to. -/
inductive Reachable : Engine → Prop
  | new (config : EngineConfig) (trust : Trust) (now : Timestamp) : Reachable (new config trust now)
  | step {e : Engine} (op : Op) : Reachable e → Reachable (e.step op)
  | restore {e : Engine} (p : Snapshot) : Reachable e → Reachable (e.restore p).1

theorem state_restore (e : Engine) (p : Snapshot) :
    (e.restore p).1.state = (e.state.restore p).1 ∧ (e.restore p).2 = (e.state.restore p).2 := by
  rw [restore]
  split <;> simp [*]

theorem named_step (h : e.state.Named) (op : Op) : (e.step op).state.Named := by
  cases op with
  | receive m announcedBy => exact h.receive e.config.validation m announcedBy
  | receiveList id references received =>
    exact h.congr (State.board_receiveList e.state e.config.lists id references received)
  | deleteIdentity identity => exact h.deleteIdentity identity
  | subscribe viewer name => exact h.congr (State.board_subscribe e.state viewer name)
  | queueOwn m => exact h.queueOwn e.config.validation m e.now
  | unsend id => exact h.unsend id
  | fail | sweep | discard | retainMarkers | unsubscribe | markPublished | markPublishFailed
    | setClock => exact h.congr fun _ => rfl

theorem Reachable.named (h : e.Reachable) : e.state.Named := by
  induction h with
  | new config trust now => exact State.named_empty
  | step op _ ih => exact named_step ih op
  | restore p _ ih =>
    rw [(state_restore _ p).1]
    exact ih.restore p

/-- What an engine may refuse. -/
inductive Request where
  | receive (m : Message) (announcedBy : Option IdentityId)
  | receiveList (list : ListId) (references : List Announcement) (received : Timestamp)
  | queueOwn (m : Message)
  | unsend (message : MessageId)
  | restore (p : Snapshot)
  | threads (viewer : IdentityId) (name : BoardName)
  | replies (viewer : IdentityId) (name : BoardName) (thread : MessageId)
  | replyCount (viewer : IdentityId) (name : BoardName) (thread : MessageId)
  | messageCount (viewer : IdentityId) (name : BoardName)
  | boardCount (name : BoardName)

def refusal? {α : Type} : Except EngineError α → Option EngineError
  | .error error => some error
  | .ok _ => none

/-- An engine after a request, and the error if the request was refused. -/
def answer (e : Engine) : Request → Engine × Option EngineError
  | .receive m announcedBy => ((e.receive m announcedBy).1, refusal? (e.receive m announcedBy).2)
  | .receiveList list references received =>
    ((e.receiveList list references received).1,
      refusal? (e.receiveList list references received).2)
  | .queueOwn m => ((e.queueOwn m).1, refusal? (e.queueOwn m).2)
  | .unsend message => ((e.unsend message).1, refusal? (e.unsend message).2)
  | .restore p => ((e.restore p).1, refusal? (e.restore p).2)
  | .threads viewer name => (e, refusal? (e.state.threads e.trust viewer name))
  | .replies viewer name thread => (e, refusal? (e.state.replies e.trust viewer name thread))
  | .replyCount viewer name thread => (e, refusal? (e.state.replyCount e.trust viewer name thread))
  | .messageCount viewer name => (e, refusal? (e.state.messageCount e.trust viewer name))
  | .boardCount name => (e, refusal? (e.state.boardCount name))

/-- What a refused request may leave. A message is refused for its author or for its content and for
nothing else. -/
def Leaves (s s' : State) : Request → EngineError → Prop
  | .receive m _, .deletedIdentity identity => identity = m.author ∧ s' = s
  | .receive m _, .validation _ => s.RejectedTo s' m.id
  | .receive _ _, _ => False
  | _, _ => s' = s

theorem leaves_receive (h : e.state.Named) {m : Message} {announcedBy : Option IdentityId}
    {error : EngineError} (herror : (e.answer (.receive m announcedBy)).2 = some error) :
    Leaves e.state (e.answer (.receive m announcedBy)).1.state (.receive m announcedBy) error := by
  have hstate : (e.answer (.receive m announcedBy)).1.state =
      (e.state.receive e.config.validation m announcedBy).1 := rfl
  change refusal? (e.state.receive e.config.validation m announcedBy).2 = some error at herror
  rw [hstate]
  obtain ⟨-, heq⟩ | ⟨-, fault, -, heq⟩ | ⟨-, -, boards, reports, heq, -⟩ :=
    State.receive_cases h e.config.validation m announcedBy
  · rw [heq] at herror ⊢
    cases herror
    exact ⟨rfl, rfl⟩
  · rw [heq] at herror ⊢
    cases herror
    exact State.rejectedTo_settle e.state m.id
  · rw [heq] at herror
    cases herror

/-- Once an own message is in the outbox, its arrival goes through. -/
theorem leaves_queueOwn (h : e.state.Named) {m : Message} {error : EngineError}
    (herror : (e.answer (.queueOwn m)).2 = some error) :
    (e.answer (.queueOwn m)).1.state = e.state := by
  change refusal? (e.state.queueOwn e.config.validation m e.now).2 = some error at herror
  show (e.state.queueOwn e.config.validation m e.now).1 = e.state
  obtain ⟨_, heq⟩ | ⟨hauthor, hvalid, heq⟩ :=
    State.queueOwn_cases e.state e.config.validation m e.now
  · rw [heq]
  · rw [heq] at herror
    have hqueued : State.Named { e.state with outbox := e.state.outbox.queue m e.now } := h
    obtain ⟨hdeleted, -⟩ | ⟨-, fault, hfault, -⟩ | ⟨-, -, boards, reports, hfiled, -⟩ :=
      State.receive_cases hqueued e.config.validation m (some m.author)
    · exact absurd (hauthor.symm.trans hdeleted) Bool.false_ne_true
    · rw [hvalid] at hfault
      cases hfault
    · rw [hfiled] at herror
      cases herror

theorem leaves_restore {p : Snapshot} {error : EngineError}
    (herror : (e.answer (.restore p)).2 = some error) :
    (e.answer (.restore p)).1.state = e.state := by
  obtain ⟨hstate, hanswer⟩ := state_restore e p
  change refusal? (e.restore p).2 = some error at herror
  show (e.restore p).1.state = e.state
  rw [hanswer, State.restore] at herror
  rw [hstate, State.restore]
  split at herror
  · next hversion => rw [if_pos hversion]
  · cases herror

/-- In every state that can be reached, a refused request leaves the state as it was, except that
rejected content counts as downloaded. A message is refused for a deleted author or for its content
only, and one that is not refused is on all the boards that it targets. -/
theorem Reachable.refused (h : e.Reachable) :
    (∀ r error, (e.answer r).2 = some error → Leaves e.state (e.answer r).1.state r error) ∧
      ∀ m announcedBy, (e.answer (.receive m announcedBy)).2 = none →
        ∀ b, m.targets b = true →
          m.id ∈ ((e.answer (.receive m announcedBy)).1.state.board b).messages := by
  constructor
  · intro r error herror
    cases r with
    | receive m announcedBy => exact leaves_receive h.named herror
    | receiveList list references received =>
      change refusal? (e.state.receiveList e.config.lists list references received).2 = _ at herror
      show (e.state.receiveList e.config.lists list references received).1 = e.state
      obtain ⟨_, heq⟩ | ⟨-, lists, wanted, -, heq⟩ :=
        State.receiveList_cases e.state e.config.lists list references received
      · rw [heq]
      · rw [heq] at herror
        cases herror
    | queueOwn m => exact leaves_queueOwn h.named herror
    | unsend message =>
      change refusal? (e.state.unsend message).2 = _ at herror
      show (e.state.unsend message).1 = e.state
      obtain ⟨-, _, heq⟩ | ⟨-, heq⟩ := State.unsend_cases e.state message
      · rw [heq]
      · rw [heq] at herror
        cases herror
    | restore p => exact leaves_restore herror
    | threads | replies | replyCount | messageCount | boardCount => exact rfl
  · intro m announcedBy hnone b htarget
    change refusal? (e.state.receive e.config.validation m announcedBy).2 = none at hnone
    show m.id ∈ ((e.state.receive e.config.validation m announcedBy).1.board b).messages
    obtain ⟨-, heq⟩ | ⟨-, fault, -, heq⟩ | ⟨-, -, boards, reports, heq, hboards⟩ :=
      State.receive_cases h.named e.config.validation m announcedBy
    · rw [heq] at hnone
      cases hnone
    · rw [heq] at hnone
      cases hnone
    · rw [heq]
      exact (State.mem_board_filed h.named hboards).2 (.inr ⟨rfl, htarget⟩)

/-- A message without boards is rejected while a reply waits for it, and a message that was never
queued cannot be taken back. -/
theorem ring_refused :
    let e := (new {} .everyone 0).step (.receive Board.Ring.first none)
    let r : Request := .receive { Board.Ring.second with boards := ∅ } none
    let r' : Request := .unsend Board.Ring.first.id
    e.Reachable ∧
      (e.answer r).2 = some (.validation .noBoards) ∧
      e.state.RejectedTo (e.answer r).1.state Board.Ring.second.id ∧
      (e.answer r').2 = some (.notQueued Board.Ring.first.id) ∧ (e.answer r').1.state = e.state := by
  intro e r r'
  have hreachable : e.Reachable := .step _ (.new {} .everyone 0)
  have hrejected : (e.answer r).2 = some (.validation .noBoards) := by decide +kernel
  have hunqueued : (e.answer r').2 = some (.notQueued Board.Ring.first.id) := by decide +kernel
  obtain ⟨hrefused, -⟩ := hreachable.refused
  exact ⟨hreachable, hrejected, hrefused r _ hrejected, hunqueued, hrefused r' _ hunqueued⟩

end Engine

end Noticeboard
