import Noticeboard.Proofs.Retry
import Noticeboard.Proofs.State.Restart

/-!
# Markers of deleted identities

The deletion of an identity takes away the markers on all subjects by it, and nothing but a failed
fetch makes a marker. The record of a failed fetch does not ask whether the author is deleted. So
the subjects by a deleted identity stay without markers just if no failed fetch of them is recorded
after the deletion (`Engine.stages_unmarked_iff`).
-/

namespace Noticeboard

namespace State

variable {s : State} {subject : Subject}

/-! ## Markers after an operation -/

theorem mem_markers_settle {id : MessageId} (h : subject ∈ (s.settle id).markers) :
    subject ∈ s.markers :=
  Std.ExtTreeMap.mem_of_mem_erase h

theorem mem_markers_receive (hs : s.Sound) {limits : Limits} {m : Message}
    {announcedBy : Option IdentityId}
    (h : subject ∈ (s.receive limits m announcedBy).1.markers) : subject ∈ s.markers := by
  obtain ⟨-, heq⟩ | ⟨-, e, -, heq⟩ | ⟨-, -, boards, reports, heq, -⟩ :=
    receive_cases hs.named limits m announcedBy
  · rwa [heq] at h
  · rw [heq] at h
    exact mem_markers_settle h
  · rw [heq] at h
    exact mem_markers_settle (s := { s with boards }) h

theorem mem_markers_receiveList {limits : ListLimits} {id : ListId}
    {references : List Announcement} {received : Timestamp}
    (h : subject ∈ (s.receiveList limits id references received).1.markers) :
    subject ∈ s.markers := by
  obtain ⟨e, heq⟩ | ⟨-, lists, wanted, -, heq⟩ :=
    receiveList_cases s limits id references received
  · rwa [heq] at h
  · rw [heq] at h
    exact Std.ExtTreeMap.mem_of_mem_erase h

theorem mem_markers_queueOwn (hs : s.Sound) {limits : Limits} {m : Message} {now : Timestamp}
    (h : subject ∈ (s.queueOwn limits m now).1.markers) : subject ∈ s.markers := by
  have hqueued : State.Sound { s with outbox := s.outbox.queue m now } :=
    hs.congr (fun _ => rfl) rfl
  exact queueOwn_keep (p := fun s' => subject ∈ s'.markers → subject ∈ s.markers) id
    (fun _ _ => mem_markers_receive hqueued) h

theorem markers_unsend (s : State) (id : MessageId) : (s.unsend id).1.markers = s.markers := by
  exact unsend_keep (p := fun s' => s'.markers = s.markers) rfl rfl

/-- A deletion keeps some of the markers on subjects by others. -/
theorem mem_markers_deleteIdentity {identity : IdentityId}
    (h : subject ∈ (s.deleteIdentity identity).1.markers) :
    subject ∈ s.markers ∧ subject.author ≠ identity := by
  have hpruned : subject ∈ s.markers.pruneAuthor identity := Std.ExtTreeMap.mem_of_mem_filter h
  obtain ⟨hmem, hkeep⟩ := Std.ExtTreeMap.mem_filter.1 hpruned
  exact ⟨hmem, by simpa using hkeep⟩

end State

namespace Engine

variable {e : Engine} {subject : Subject}

/-- Nothing but its own failed fetch marks a subject. -/
theorem mem_markers_step (hs : e.state.Sound) {op : Op}
    (hop : ∀ reason, op ≠ .fail subject reason) (h : subject ∈ (e.step op).state.markers) :
    subject ∈ e.state.markers := by
  cases op with
  | receive m announcedBy => exact State.mem_markers_receive hs h
  | receiveList id references received => exact State.mem_markers_receiveList h
  | fail failed reason =>
    refine (Markers.mem_fail.1 h).resolve_left ?_
    rintro rfl
    exact hop reason rfl
  | sweep => exact Markers.mem_of_mem_sweep h
  | discard id => exact State.mem_markers_settle h
  | retainMarkers keep => exact Std.ExtTreeMap.mem_of_mem_filter h
  | deleteIdentity identity => exact (State.mem_markers_deleteIdentity h).1
  | queueOwn m => exact State.mem_markers_queueOwn hs h
  | unsend id => exact State.markers_unsend e.state id ▸ h
  | subscribe | unsubscribe | markPublished | markPublishFailed | setClock => exact h

theorem mem_markers_stage (hs : e.state.Sound) {x : Stage}
    (hx : ∀ reason, x ≠ .op (.fail subject reason)) (h : subject ∈ (e.stage x).state.markers) :
    subject ∈ e.state.markers := by
  cases x with
  | op op => exact mem_markers_step hs (fun reason hop => hx reason (congrArg Stage.op hop)) h
  | restart config trust now =>
    rwa [stage, state_restarted, State.restored_eq] at h

theorem unmarked_stages (hs : e.state.Sound) (h : subject ∉ e.state.markers) {l : List Stage}
    (hl : ∀ reason, Stage.op (.fail subject reason) ∉ l) :
    subject ∉ (e.stages l).state.markers := by
  refine stages_keep (p := fun e => subject ∉ e.state.markers) hs h fun e x hx hs =>
    mt (mem_markers_stage hs fun reason heq => ?_)
  exact hl reason (heq ▸ hx)

/-- A subject by a deleted identity has no marker right after the deletion and at no time later, just
if no failed fetch of it is recorded after the deletion. -/
theorem stages_unmarked_iff (config : EngineConfig) (trust : Trust) (now : Timestamp)
    (before after : List Stage) (subject : Subject) :
    let e := (((new config trust now).stages before).deleteIdentity subject.author).1
    (∀ seen, seen <+: after → subject ∉ (e.stages seen).state.markers) ↔
      ∀ reason, Stage.op (.fail subject reason) ∉ after := by
  intro e
  have hbefore := sound_stages (e := new config trust now) State.sound_empty before
  have hs : e.state.Sound := hbefore.deleteIdentity subject.author
  constructor
  · intro hunmarked reason hmem
    obtain ⟨seen, rest, rfl⟩ := List.append_of_mem hmem
    refine hunmarked (seen ++ [.op (.fail subject reason)]) ⟨rest, by simp⟩ ?_
    rw [stages, List.foldl_append]
    exact Markers.mem_fail.2 (.inl rfl)
  · rintro hnone seen ⟨rest, rfl⟩
    refine unmarked_stages hs (fun h => (State.mem_markers_deleteIdentity h).2 rfl)
      fun reason hmem => hnone reason (List.mem_append_left rest hmem)

/-- A failed fetch of the root of the ring is on record when its author is deleted. The marker goes,
and neither a message by another author nor a restart brings it back. -/
theorem ring_unmarked_after_deletion :
    let before : List Stage := [.op (.receive Board.Ring.first none),
      .op (.fail (.message Board.Ring.root.id) .notFound)]
    let after : List Stage := [.op (.receive Board.Ring.second none), .restart {} .everyone 5]
    let e := (new {} .everyone 0).stages before
    let deleted := (e.deleteIdentity Board.Ring.root.author).1
    Subject.message Board.Ring.root.id ∈ e.state.markers ∧
      ∀ seen, seen <+: after →
        Subject.message Board.Ring.root.id ∉ (deleted.stages seen).state.markers := by
  intro before after e deleted
  refine ⟨by decide +kernel, ?_⟩
  exact (stages_unmarked_iff {} .everyone 0 before after (.message Board.Ring.root.id)).2
    fun reason hmem => by simp [after] at hmem

/-- A list announces the root of the ring, its author is deleted while the root is being fetched, and
the failure of the fetch is recorded: a marker stands on a message that is never fetched again. -/
theorem ring_marked_after_deletion :
    let before : List Stage := [.op (.receiveList ⟨Board.Ring.root.author, 0⟩
      [⟨Board.Ring.root.id, Board.Ring.board, 0, "", false⟩] 0)]
    let e := (new {} .everyone 0).stages before
    let deleted := (e.deleteIdentity Board.Ring.root.author).1
    e.toFetch = [Board.Ring.root.id] ∧ deleted.toFetch = [] ∧ deleted.state.markers.isEmpty = true ∧
      Subject.message Board.Ring.root.id ∈
        (deleted.fail (.message Board.Ring.root.id) .notFound).state.markers := by
  decide +kernel

end Engine

end Noticeboard
