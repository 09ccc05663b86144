import Noticeboard.Proofs.State.Run

/-!
# Wanted messages

A message is fetched because a list or a board asks for it (`State.mem_toFetch`). Once a message is
rejected it counts as downloaded for as long as its author is not deleted, so no list asks for it
again (`Engine.settled_steps`). Boards go on asking: a rejected message that stands as a ghost, or as
a root never seen, is fetched again.
-/

namespace Noticeboard

namespace Board

/-- The board is waiting for a message: it stands as a ghost or is a root never seen. -/
def Awaits (g : Board) (x : MessageId) : Prop := x ∈ g.ghostIds ∨ x ∈ State.unknownRoots g

theorem not_awaits_empty (name : BoardName) (x : MessageId) : ¬ (empty name).Awaits x := by
  simp [Awaits, ghostIds, State.unknownRoots, trees, empty]

end Board

namespace State

variable {s s' : State} {x : MessageId} {now : Timestamp}

/-- The messages to fetch are those that a list or a board asks for, but for the ones by deleted
authors, stored ones and those whose last fetch failed too recently. -/
theorem mem_toFetch : x ∈ s.toFetch now ↔ (s.lists.Wants x ∨ ∃ b, (s.board b).Awaits x) ∧
    s.isDeleted x.author = false ∧ s.isStored x = false ∧
      s.markers.isRetryAllowed (.message x) now = true := by
  have hreferred : x ∈ s.referred ↔ s.lists.Wants x ∨ ∃ b, (s.board b).Awaits x := by
    rw [referred, mem_ofList, List.mem_append, ListIndex.mem_toFetch]
    refine or_congr Iff.rfl ?_
    simp only [List.mem_flatMap, Prod.exists, Std.ExtTreeMap.mem_toList_iff_getElem?_eq_some,
      List.mem_append, Std.ExtTreeSet.mem_toList]
    constructor
    · rintro ⟨b, g, hg, hx⟩
      exact ⟨b, board_eq hg ▸ hx⟩
    · rintro ⟨b, hx⟩
      cases hg : s.boards[b]? with
      | none =>
        rw [board, hg] at hx
        exact absurd hx (Board.not_awaits_empty b x)
      | some g => exact ⟨b, g, hg, board_eq hg ▸ hx⟩
  rw [toFetch, List.mem_filter, Std.ExtTreeSet.mem_toList, hreferred]
  simp only [Bool.and_eq_true, Bool.not_eq_true', and_assoc]

/-- No list asks for a message: it counts as downloaded, or its author is deleted. -/
def Settled (s : State) (x : MessageId) : Prop :=
  x ∈ s.lists.downloaded ∨ s.isDeleted x.author = true

theorem Settled.mono (h : s.Settled x) (hlists : ∀ y ∈ s.lists.downloaded, y ∈ s'.lists.downloaded)
    (hdeleted : s'.deleted = s.deleted) : s'.Settled x := by
  rw [Settled, isDeleted, hdeleted]
  exact h.imp_left (hlists x)

theorem settled_settle (s : State) (x : MessageId) : (s.settle x).Settled x :=
  .inl (ListIndex.mem_downloaded_markDownloaded.2 (.inl rfl))

namespace Settled

theorem settle (h : s.Settled x) (id : MessageId) : (s.settle id).Settled x :=
  h.mono (fun _ hy => ListIndex.mem_downloaded_markDownloaded.2 (.inr hy)) rfl

theorem receive (h : s.Settled x) (hs : s.Sound) (limits : Limits) (m : Message)
    (announcedBy : Option IdentityId) : (s.receive limits m announcedBy).1.Settled x := by
  obtain ⟨-, heq⟩ | ⟨-, e, -, heq⟩ | ⟨-, -, boards, reports, heq, -⟩ :=
    receive_cases hs.named limits m announcedBy
  · rw [heq]
    exact h
  · rw [heq]
    exact h.settle m.id
  · have hfiled : State.Settled { s with boards } x := h
    rw [heq]
    exact hfiled.settle m.id

theorem receiveList (h : s.Settled x) (limits : ListLimits) (id : ListId)
    (references : List Announcement) (received : Timestamp) :
    (s.receiveList limits id references received).1.Settled x := by
  obtain ⟨e, heq⟩ | ⟨-, lists, wanted, hlists, heq⟩ :=
    receiveList_cases s limits id references received
  · rw [heq]
    exact h
  · rw [heq]
    refine h.mono (fun y hy => ?_) rfl
    exact (ListIndex.mem_downloaded_foldl _).2 (.inr (ListIndex.downloaded_receive hlists ▸ hy))

theorem deleteIdentity (h : s.Settled x) (identity : IdentityId) :
    (s.deleteIdentity identity).1.Settled x := by
  have hdeleted := isDeleted_deleteIdentity s identity x.author
  by_cases hx : x.author = identity
  · exact .inr (hdeleted.2 (.inl hx.symm))
  · exact h.imp (fun hy => ListIndex.mem_downloaded_removeAuthor.2 ⟨hy, hx⟩)
      fun ha => hdeleted.2 (.inr ha)

theorem queueOwn (h : s.Settled x) (hs : s.Sound) (limits : Limits) (m : Message)
    (now : Timestamp) : (s.queueOwn limits m now).1.Settled x := by
  have hqueued : State.Settled { s with outbox := s.outbox.queue m now } x := h
  exact queueOwn_keep (p := (·.Settled x)) h fun _ _ =>
    hqueued.receive (hs.congr (fun _ => rfl) rfl) limits m (some m.author)

theorem unsend (h : s.Settled x) (id : MessageId) : (s.unsend id).1.Settled x :=
  unsend_keep (p := (·.Settled x)) h h

end Settled

end State

namespace Engine

variable {e : Engine} {op : Op} {x : MessageId}

theorem settled_step (hs : e.state.Sound) (h : e.state.Settled x) (op : Op) :
    (e.step op).state.Settled x := by
  cases op with
  | receive m announcedBy => exact h.receive hs e.config.validation m announcedBy
  | receiveList id references received => exact h.receiveList e.config.lists id references received
  | discard id => exact h.settle id
  | deleteIdentity identity => exact h.deleteIdentity identity
  | queueOwn m => exact h.queueOwn hs e.config.validation m e.now
  | unsend id => exact h.unsend id
  | fail | sweep | retainMarkers | subscribe | unsubscribe | markPublished | markPublishFailed
    | setClock => exact h

/-- A message that counts as downloaded does so for as long as its author is not deleted. -/
theorem settled_steps (hs : e.state.Sound) (h : e.state.Settled x) (ops : List Op) :
    (e.steps ops).state.Settled x := by
  induction ops generalizing e with
  | nil => exact h
  | cons op ops ih => exact ih (sound_step hs op) (settled_step hs h op)

/-- An operation finds the content of a message unacceptable. -/
def Rejects (e : Engine) (x : MessageId) : Op → Prop
  | .receive m announcedBy =>
    m.id = x ∧ ∃ error, (e.receive m announcedBy).2 = .error (.validation error)
  | .discard id => id = x
  | _ => False

theorem settled_of_rejects (hs : e.state.Sound) (h : e.Rejects x op) :
    (e.step op).state.Settled x := by
  cases op with
  | receive m announcedBy =>
    obtain ⟨rfl, error, hrejected⟩ := h
    change (e.state.receive e.config.validation m announcedBy).2 = _ at hrejected
    change (e.state.receive e.config.validation m announcedBy).1.Settled m.id
    obtain ⟨-, heq⟩ | ⟨-, e', -, heq⟩ | ⟨-, -, boards, reports, heq, -⟩ :=
      State.receive_cases hs.named e.config.validation m announcedBy
    · simp [heq] at hrejected
    · rw [heq]
      exact State.settled_settle e.state m.id
    · simp [heq] at hrejected
  | discard id =>
    obtain rfl : id = x := h
    exact State.settled_settle e.state id
  | _ => exact h.elim

/-- When a rejected message is fetched again, whatever went before and came after: if some board
still waits for it, its author is not deleted, it was not stored in the meantime, and no failed fetch
of it has to wait. -/
theorem mem_toFetch_of_rejected (config : EngineConfig) (trust : Trust) (now : Timestamp)
    (before after : List Op) (h : (run config trust now before).Rejects x op) :
    let later := run config trust now (before ++ op :: after)
    x ∈ later.toFetch ↔ (∃ b, (later.state.board b).Awaits x) ∧
      later.state.isDeleted x.author = false ∧ later.state.isStored x = false ∧
        later.state.markers.isRetryAllowed (.message x) later.now = true := by
  intro later
  have hbefore := sound_run config trust now before
  have hlater : later = ((run config trust now before).step op).steps after := by
    simp [later, run, steps]
  have hsound : later.state.Sound := sound_run config trust now (before ++ op :: after)
  have hsettled : later.state.Settled x := by
    rw [hlater]
    exact settled_steps (sound_step hbefore op) (settled_of_rejects hbefore h) after
  rw [toFetch, State.mem_toFetch]
  refine and_congr_left fun ⟨hauthor, _⟩ => or_iff_right ?_
  rcases hsettled with hdownloaded | hdeleted
  · exact hsound.lists.not_wants hdownloaded
  · simp [hauthor] at hdeleted

/-- A reply is stored, the parent that it names is announced, and the content of the parent is
rejected. The parent is fetched again later, since it stands as a ghost. -/
theorem ring_fetched_after_rejection :
    let before : List Op := [.receive Board.Ring.first none, .receiveList
      ⟨Board.Ring.second.author, 0⟩ [⟨Board.Ring.second.id, Board.Ring.board, 0, "", false⟩] 0]
    let later := run {} .everyone 0 (before ++ .discard Board.Ring.second.id :: [.setClock 5])
    (run {} .everyone 0 before).Rejects Board.Ring.second.id (.discard Board.Ring.second.id) ∧
      Board.Ring.second.id ∈ later.toFetch := by
  intro before later
  have hrejects : (run {} .everyone 0 before).Rejects Board.Ring.second.id
      (.discard Board.Ring.second.id) := rfl
  refine ⟨hrejects, (mem_toFetch_of_rejected {} .everyone 0 before [.setClock 5] hrejects).2 ?_⟩
  refine ⟨⟨Board.Ring.board, .inl (by decide +kernel)⟩, ?_⟩
  decide +kernel

/-- Rejected content is not kept from being fetched again: a message without boards is rejected, and
wanted at once by the board that stores a reply to it. -/
theorem ring_wanted_after_rejection :
    let before : List Op := [.receive Board.Ring.first none]
    let op : Op := .receive { Board.Ring.second with boards := ∅ } none
    (run {} .everyone 0 before).Rejects Board.Ring.second.id op ∧
      (run {} .everyone 0 (before ++ [op])).toFetch = [Board.Ring.root.id, Board.Ring.second.id] :=
  ⟨⟨rfl, .noBoards, by decide +kernel⟩, by decide +kernel⟩

end Engine

end Noticeboard
