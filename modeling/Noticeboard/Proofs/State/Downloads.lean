import Noticeboard.Proofs.State.Run

/-!
# What counts as downloaded

Whether a message still has to be fetched is on record in four places: the boards that store it, the
set of downloads, the flags of the lists that name it, and the record of announcements. They agree in
every run, whichever of a message and the lists naming it comes first (`Engine.run_downloads`). So the
answer to a list is what becomes pending with it, each message once and in the order of the list
(`ListIndex.Joins`), and nothing of it is stored.
-/

namespace Noticeboard

namespace ListIndex

variable {ix ix' : ListIndex} {limits : ListLimits} {id : ListId} {references : List Announcement}
  {received : Timestamp} {wanted : List MessageId}

/-- The given messages are those that become pending from one index to the next, each once and in the
order in which a list mentions them first. -/
structure Joins (before after : ListIndex) (references : List Announcement)
    (wanted : List MessageId) : Prop where
  pending : ∀ x, x ∈ wanted ↔ after.Pending x ∧ ¬ before.Pending x
  once : wanted.Nodup
  ordered : wanted.Pairwise fun x y => placeIn references x < placeIn references y

theorem joins_receive (h : ix.receive limits id references received = .ok (ix', wanted)) :
    ix.Joins ix' references wanted := by
  have hordered := pairwise_wanted_receive h
  exact ⟨fun _ => mem_wanted_receive h, hordered.imp fun hxy heq => (heq ▸ hxy).ne rfl, hordered⟩

end ListIndex

namespace State

/-- The answer to an accepted list, and what it does to lists and boards. -/
theorem Sound.receiveList_ok {s : State} (h : s.Sound) {limits : ListLimits} {id : ListId}
    {references : List Announcement} {received : Timestamp} {wanted : List MessageId}
    (hok : (s.receiveList limits id references received).2 = .ok wanted) :
    s.lists.receive limits id references received =
      .ok ((s.receiveList limits id references received).1.lists, wanted) := by
  obtain ⟨error, heq⟩ | ⟨hauthor, lists, wanted', hlists, -⟩ :=
    receiveList_cases s limits id references received
  · rw [heq] at hok
    cases hok
  · rw [h.receiveList_of_ok hauthor hlists] at hok ⊢
    cases hok
    exact hlists

end State

namespace Engine

/-- In every run stored messages count as downloaded, the flags of all lists say what counts as
downloaded, and on record as announced is what some list announces. The answer to a list is what
becomes pending with it, in the order of the list, and none of it is stored. -/
theorem run_downloads (config : EngineConfig) (trust : Trust) (now : Timestamp) (ops : List Op) :
    let e := run config trust now ops
    (∀ b, ∀ x ∈ (e.state.board b).messages, x ∈ e.state.lists.downloaded) ∧
    (∀ (k : ListId) (l : MessageList), e.state.lists.lists[k]? = some l → ∀ r ∈ l.references,
      (r.downloaded = true ↔ r.message ∈ e.state.lists.downloaded)) ∧
    (∀ x, x ∈ e.state.lists.announced ↔ ∃ (k : ListId) (l : MessageList),
      e.state.lists.lists[k]? = some l ∧ l.announces x = true) ∧
    ∀ id references received wanted, (e.receiveList id references received).2 = .ok wanted →
      let later := (e.receiveList id references received).1
      e.state.lists.Joins later.state.lists references wanted ∧
        ∀ x ∈ wanted, ∀ b, x ∉ (later.state.board b).messages := by
  intro e
  have hs := sound_run config trust now ops
  refine ⟨hs.downloaded, fun k l hl r hr => ?_, fun x => hs.lists.mem_announced_iff,
    fun id references received wanted hok => ?_⟩
  · rw [hs.lists.flagged k l hl r hr, Std.ExtTreeSet.mem_iff_contains]
  · intro later
    have hlists := hs.receiveList_ok hok
    refine ⟨ListIndex.joins_receive hlists, fun x hx b hstored => ?_⟩
    have hs' : later.state.Sound := hs.receiveList e.config.lists id references received
    obtain ⟨⟨-, hmissing⟩, -⟩ := (ListIndex.mem_wanted_receive hlists).1 hx
    exact hmissing (hs'.downloaded b x hstored)

/-- A list names the root of the ring, which is stored, and another message twice: the other one joins
what is pending, once. -/
theorem ring_joins :
    let e := run {} .everyone 0 [.receive Board.Ring.root none]
    let other : MessageId := ⟨Board.Ring.root.author, ⟨9⟩⟩
    let id : ListId := ⟨Board.Ring.root.author, 0⟩
    let references : List Announcement := [Board.Ring.root.id, other, other].map fun x =>
      { message := x, board := Board.Ring.board, announced := 3, hint := "", downloaded := false }
    (e.receiveList id references 5).2 = .ok [other] ∧
      e.state.lists.Joins (e.receiveList id references 5).1.state.lists references [other] := by
  intro e other id references
  have hok : (e.receiveList id references 5).2 = .ok [other] := by decide +kernel
  obtain ⟨-, -, -, hanswer⟩ := run_downloads {} .everyone 0 [.receive Board.Ring.root none]
  exact ⟨hok, (hanswer id references 5 [other] hok).1⟩

end Engine

end Noticeboard
