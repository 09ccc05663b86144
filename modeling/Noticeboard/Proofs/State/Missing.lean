import Noticeboard.Proofs.Board.Ghosts
import Noticeboard.Proofs.Retry
import Noticeboard.Proofs.State.Wanted

/-!
# The queue of messages to fetch

In every run the messages to fetch can be read off what is stored, the lists and the markers
(`Engine.run_toFetch`). A message is in the queue if something refers to it: a list announces it and
it does not count as downloaded, or a board has a reply that names it as parent or thread and misses
it. It is left out if its author is deleted, if some board stores it, or if a failed fetch of it has
to wait.
-/

namespace Noticeboard

namespace Board

variable {g : Board} {x : MessageId}

theorem Coherent.mem_unknownRoots (h : g.Coherent) :
    x ∈ State.unknownRoots g ↔ g.MissesRoot x := by
  simp only [State.unknownRoots, List.mem_map, List.mem_filter, h.mem_trees, beq_iff_eq,
    ← h.exists_unknown_iff]
  constructor
  · rintro ⟨t, ⟨ht, hroot⟩, rfl⟩
    exact ⟨t, ht, hroot⟩
  · rintro ⟨t, ht, hroot⟩
    have hid := h.planted.tree_id x t ht
    exact ⟨t, ⟨by rwa [hid], hroot⟩, hid⟩

/-- A board waits for the messages that its replies name and miss. -/
theorem Coherent.awaits_iff (h : g.Coherent) :
    g.Awaits x ↔ (∃ k, g.MissesParent k x) ∨ g.MissesRoot x := by
  rw [Awaits, h.mem_ghostIds, h.mem_unknownRoots]

end Board

namespace State

variable {s : State} {x : MessageId} {now : Timestamp}

theorem toFetch_ascending (s : State) (now : Timestamp) :
    (s.toFetch now).Pairwise fun a b => compare a b = .lt :=
  Std.ExtTreeSet.ordered_toList.filter _

/-- Something refers to a message that is not there: a list announces it and it does not count as
downloaded, or a board has a reply to it or in its thread. -/
def Misses (s : State) (x : MessageId) : Prop :=
  ((∃ (k : ListId) (l : MessageList), s.lists.lists[k]? = some l ∧ l.announces x = true) ∧
    x ∉ s.lists.downloaded) ∨
  (∃ b k, (s.board b).MissesParent k x) ∨ ∃ b, (s.board b).MissesRoot x

theorem Sound.mem_toFetch (h : s.Sound) : x ∈ s.toFetch now ↔ s.Misses x ∧
    x.author ∉ s.deleted ∧ (∀ b, x ∉ (s.board b).messages) ∧
      ∀ marker, s.markers[Subject.message x]? = some marker → marker.nextRetry ≤ now := by
  have hawaits : (∃ b, (s.board b).Awaits x) ↔
      (∃ b k, (s.board b).MissesParent k x) ∨ ∃ b, (s.board b).MissesRoot x := by
    simp only [(h.coherent _).awaits_iff, exists_or]
  have hstored : s.isStored x = false ↔ ∀ b, x ∉ (s.board b).messages := by
    rw [← Bool.not_eq_true, isStored_iff, not_exists]
  have hdeleted : s.isDeleted x.author = false ↔ x.author ∉ s.deleted := by
    rw [isDeleted, ← Bool.not_eq_true, ← Std.ExtTreeSet.mem_iff_contains]
  rw [State.mem_toFetch, h.lists.wants_iff, hawaits, hstored, hdeleted, Markers.isRetryAllowed_iff,
    Misses]

end State

namespace Engine

/-- In every run the messages to fetch are, in ascending order, exactly those that something refers
to and misses, whose author is not deleted, that no board stores, and that have no marker with a
later date. -/
theorem run_toFetch (config : EngineConfig) (trust : Trust) (now : Timestamp) (ops : List Op) :
    let e := run config trust now ops
    e.toFetch.Pairwise (fun a b => compare a b = .lt) ∧
    ∀ x, x ∈ e.toFetch ↔ e.state.Misses x ∧ x.author ∉ e.state.deleted ∧
      (∀ b, x ∉ (e.state.board b).messages) ∧
      ∀ marker, e.state.markers[Subject.message x]? = some marker → marker.nextRetry ≤ e.now := by
  intro e
  exact ⟨State.toFetch_ascending e.state e.now,
    fun x => (sound_run config trust now ops).mem_toFetch⟩

end Engine

end Noticeboard
