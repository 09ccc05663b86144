import Noticeboard.Proofs.Board.RemovalReport
import Noticeboard.Proofs.State.Restart
import Noticeboard.Proofs.State.Wanted

/-!
# What a deletion outgrows

A deletion takes the markers on what the identity wrote, and on what the state outgrows: messages that
stood as ghosts before, stand as ghosts nowhere afterwards and are wanted by no list
(`State.getElem?_markers_deleteIdentity`).

A message that is outgrown may still be wanted, as the root of a thread that was never seen. It loses
its marker and is fetched again without delay. That is the only way in which the marker on a message by
somebody else is lost while the message is wanted (`Engine.stages_marker_kept_iff`).
-/

namespace Noticeboard

namespace ListIndex

variable {ix : ListIndex} {x : MessageId}

/-- Lists announce messages of their own author, so the removal of another one leaves them. -/
theorem Sound.wants_removeAuthor_iff (h : ix.Sound) {a : IdentityId} (hx : x.author ≠ a) :
    (ix.removeAuthor a).1.Wants x ↔ ix.Wants x := by
  have hkept {k : ListId} {l : MessageList} : (ix.removeAuthor a).1.lists[k]? = some l ↔
      k.author ≠ a ∧ ix.lists[k]? = some l := by
    rw [lists_removeAuthor]
    split <;> simp [*]
  simp only [Wants, hkept]
  constructor
  · rintro ⟨k, l, ⟨-, hl⟩, hr⟩
    exact ⟨k, l, hl, hr⟩
  · rintro ⟨k, l, hl, r, hr, rfl, hnot⟩
    exact ⟨k, l, ⟨h.own k l hl r hr ▸ hx, hl⟩, r, hr, rfl, hnot⟩

end ListIndex

/-! ## Ghosts -/

namespace Board

variable {g : Board} {x : MessageId}

theorem hasGhost_iff : g.hasGhost x = true ↔ x ∈ g.ghostIds := by
  simp only [hasGhost, List.any_eq_true, ghostIds, mem_ofList, List.mem_flatMap,
    ThreadTree.mem_ghosts, Option.isSome_iff_exists]

/-- Taking an author away makes no ghost of a message by another author. -/
theorem Coherent.ghostIds_removeAuthor (h : g.Coherent) {a : IdentityId} (ha : x.author ≠ a)
    (hx : x ∈ (g.removeAuthor a).1.ghostIds) : x ∈ g.ghostIds := by
  obtain ⟨hcoherent, -, hmessages, -⟩ := h.removeAuthor a
  have hnot : x ∉ g.messages := by
    obtain ⟨k, -, hnot, -⟩ := hcoherent.mem_ghostIds.1 hx
    rwa [Std.ExtTreeMap.mem_iff_isSome_getElem?, hmessages, if_neg ha,
      ← Std.ExtTreeMap.mem_iff_isSome_getElem?] at hnot
  refine h.mem_ghostIds_of_sub hcoherent (fun q m hm => ?_) hnot hx
  rw [hmessages] at hm
  split at hm
  · cases hm
  · exact hm

theorem removeNext_cases (r : Board × RemovalReport) (id : MessageId) :
    removeNext r id = r ∨ ∃ x, (removeNext r id).2.removed = r.2.removed ++ [x] := by
  rw [removeNext, remove?]
  cases r.1.messages[id]? with
  | none => exact .inl rfl
  | some m => exact .inr ⟨m.id, rfl⟩

/-- Each removal is reported, so where none is reported nothing was removed. -/
theorem foldl_removeNext_cases (ids : List MessageId) (r : Board × RemovalReport) :
    ids.foldl removeNext r = r ∨
      r.2.removed.length < (ids.foldl removeNext r).2.removed.length := by
  induction ids generalizing r with
  | nil => exact .inl rfl
  | cons id ids ih =>
    rw [List.foldl_cons]
    rcases removeNext_cases r id with hstep | ⟨x, hstep⟩
    · rw [hstep]
      exact ih r
    · have hlength : (removeNext r id).2.removed.length = r.2.removed.length + 1 := by
        rw [hstep, List.length_append, List.length_singleton]
      refine .inr ?_
      rcases ih (removeNext r id) with hrest | hrest
      · rw [hrest]
        omega
      · omega

theorem removeAuthor_of_removed_nil (a : IdentityId) (h : (g.removeAuthor a).2.removed = []) :
    (g.removeAuthor a).1 = g := by
  have hnone : (g.removeAll (g.authored a)).2.removed = [] := h
  rw [removeAll_eq_foldl] at hnone
  rcases foldl_removeNext_cases (g.authored a) (g, {}) with heq | hlt
  · exact congrArg Prod.fst heq
  · rw [hnone] at hlt
    cases hlt

end Board

/-! ## Markers -/

namespace State

variable {s : State} {a : IdentityId} {x : MessageId} {subject : Subject} {marker : Marker}

theorem isGhost_iff : s.isGhost x = true ↔ ∃ b, x ∈ (s.board b).ghostIds := by
  simp only [isGhost, any_iff, Board.hasGhost_iff]
  constructor
  · rintro ⟨b, g, hg, hx⟩
    exact ⟨b, board_eq hg ▸ hx⟩
  · rintro ⟨b, hx⟩
    cases hg : s.boards[b]? with
    | none =>
      rw [board, hg] at hx
      exact absurd (.inl hx) (Board.not_awaits_empty b x)
    | some g => exact ⟨b, g, hg, board_eq hg ▸ hx⟩

/-- A message that stood as a ghost stands as one nowhere after a deletion, and no list wants it. -/
def Outgrows (s : State) (a : IdentityId) (x : MessageId) : Prop :=
  (∃ b, x ∈ (s.board b).ghostIds) ∧ (∀ b, x ∉ ((s.deleteIdentity a).1.board b).ghostIds) ∧
    ¬ (s.deleteIdentity a).1.lists.Wants x

/-- The ghosts that a deletion reports as vanished. -/
def vanished (s : State) (a : IdentityId) : IdSet :=
  .ofList ((((s.boards.map fun _ g => g.removeAuthor a).map fun _ r => r.2).filter fun _ r =>
    !r.removed.isEmpty).values.flatMap (·.ghostsVanished.toList))

theorem mem_vanished : x ∈ s.vanished a ↔ ∃ name, x ∈ (s.board name).ghostIds ∧
    x ∉ ((s.deleteIdentity a).1.board name).ghostIds := by
  have hreport (g : Board) : x ∈ (g.removeAuthor a).2.ghostsVanished ↔
      x ∈ g.ghostIds ∧ x ∉ (g.removeAuthor a).1.ghostIds :=
    Std.ExtTreeSet.mem_diff_iff
  simp only [vanished, mem_ofList, List.mem_flatMap, mem_values, Std.ExtTreeMap.getElem?_filter',
    Std.ExtTreeMap.getElem?_map, Option.map_map, Option.filter_eq_some_iff,
    Option.map_eq_some_iff, Function.comp_apply, Std.ExtTreeSet.mem_toList, board_deleteIdentity]
  constructor
  · rintro ⟨_, ⟨name, ⟨g, hg, rfl⟩, -⟩, hx⟩
    exact ⟨name, board_eq hg ▸ (hreport g).1 hx⟩
  · rintro ⟨name, hx⟩
    cases hg : s.boards[name]? with
    | none =>
      rw [board, hg] at hx
      exact absurd (.inl hx.1) (Board.not_awaits_empty name x)
    | some g =>
      rw [board_eq hg] at hx
      refine ⟨_, ⟨name, ⟨g, hg, rfl⟩, ?_⟩, (hreport g).2 hx⟩
      rw [Bool.not_eq_true', List.isEmpty_eq_false_iff]
      intro hnone
      rw [Board.removeAuthor_of_removed_nil a hnone] at hx
      exact hx.2 hx.1

/-- A deletion forgets the markers on what the state outgrows. -/
theorem markers_deleteIdentity (s : State) (a : IdentityId) : ∃ forgotten : IdSet,
    (s.deleteIdentity a).1.markers = (s.markers.pruneAuthor a).pruneMessages forgotten ∧
      ∀ x, x ∈ forgotten ↔ s.Outgrows a x := by
  obtain ⟨s', hs'⟩ : ∃ s', s' = (s.deleteIdentity a).1 := ⟨_, rfl⟩
  obtain ⟨announced, ha⟩ : ∃ announced : IdSet,
      announced = .ofList (s'.lists.toFetch.map (·.message)) := ⟨_, rfl⟩
  refine ⟨(s.vanished a).filter fun id => !announced.contains id && !s'.isGhost id, ?_,
    fun x => ?_⟩
  · subst ha hs'
    rfl
  have hannounced : announced.contains x = true ↔ s'.lists.Wants x := by
    rw [ha, ← Std.ExtTreeSet.mem_iff_contains, mem_ofList, ListIndex.mem_toFetch]
  rw [mem_set_filter, mem_vanished, Bool.and_eq_true, Bool.not_eq_true', Bool.not_eq_true',
    ← Bool.not_eq_true, ← Bool.not_eq_true, hannounced, isGhost_iff, not_exists, Outgrows, ← hs']
  constructor
  · rintro ⟨⟨name, hbefore, -⟩, hwants, hafter⟩
    exact ⟨⟨name, hbefore⟩, hafter, hwants⟩
  · rintro ⟨⟨name, hbefore⟩, hafter, hwants⟩
    exact ⟨⟨name, hbefore, hafter name⟩, hwants, hafter⟩

/-- A deletion takes away the markers on what the identity wrote and on what the state outgrows. -/
theorem getElem?_markers_deleteIdentity : (s.deleteIdentity a).1.markers[subject]? = some marker ↔
    s.markers[subject]? = some marker ∧ subject.author ≠ a ∧
      ∀ x, subject = .message x → ¬ s.Outgrows a x := by
  obtain ⟨forgotten, heq, hforgotten⟩ := markers_deleteIdentity s a
  rw [heq, Markers.pruneMessages, Markers.pruneAuthor, Std.ExtTreeMap.getElem?_filter',
    Std.ExtTreeMap.getElem?_filter', Option.filter_eq_some_iff, Option.filter_eq_some_iff,
    and_assoc]
  refine and_congr_right fun _ => and_congr (by simp) ?_
  cases subject with
  | message y => simp [Subject.isMessageIn, ← hforgotten, ← Bool.not_eq_true]
  | list k => simp [Subject.isMessageIn]

namespace Sound

theorem ghostIds_deleteIdentity (h : s.Sound) (hx : x.author ≠ a) {name : BoardName}
    (hghost : x ∈ ((s.deleteIdentity a).1.board name).ghostIds) : x ∈ (s.board name).ghostIds := by
  rw [board_deleteIdentity] at hghost
  exact (h.coherent name).ghostIds_removeAuthor hx hghost

theorem wants_deleteIdentity_iff (h : s.Sound) (hx : x.author ≠ a) :
    (s.deleteIdentity a).1.lists.Wants x ↔ s.lists.Wants x :=
  h.lists.wants_removeAuthor_iff hx

end Sound

/-! ## Messages by somebody else -/

/-- Something asks for a message: a list announces it, or a board waits for it. -/
def Wanted (s : State) (x : MessageId) : Prop := s.lists.Wants x ∨ ∃ b, (s.board b).Awaits x

/-- A message is wanted, but only as the root of a thread that was never seen. -/
def WantedAsRoot (s : State) (x : MessageId) : Prop :=
  (∃ b, x ∈ unknownRoots (s.board b)) ∧ (∀ b, x ∉ (s.board b).ghostIds) ∧ ¬ s.lists.Wants x

theorem Wanted.outgrows_iff (h : (s.deleteIdentity a).1.Wanted x) : s.Outgrows a x ↔
    (∃ b, x ∈ (s.board b).ghostIds) ∧ (s.deleteIdentity a).1.WantedAsRoot x := by
  refine and_congr_right fun _ => ?_
  rw [WantedAsRoot, iff_and_self]
  rintro ⟨hghosts, hwants⟩
  obtain ⟨b, hghost | hroot⟩ := h.resolve_left hwants
  · exact absurd hghost (hghosts b)
  · exact ⟨b, hroot⟩

theorem getElem?_markers_of_outgrows (h : s.Outgrows a x) :
    (s.deleteIdentity a).1.markers[Subject.message x]? = none := by
  rw [Option.eq_none_iff_forall_ne_some]
  intro marker hmarker
  exact (getElem?_markers_deleteIdentity.1 hmarker).2.2 x rfl h

theorem getElem?_markers_of_not_outgrows (hx : x.author ≠ a) (h : ¬ s.Outgrows a x) :
    (s.deleteIdentity a).1.markers[Subject.message x]? = s.markers[Subject.message x]? := by
  refine Option.ext fun marker => getElem?_markers_deleteIdentity.trans (and_iff_left ⟨hx, ?_⟩)
  rintro y hy
  cases hy
  exact h

end State

namespace Board.Ring

/-- A reply in the thread of the message that the first reply of the ring waits for. -/
def aside : Message := .newReply (messageId 3) second.id second.id "" 9 {board}

end Board.Ring

namespace Engine

/-- In every state that can be reached, a deletion loses the marker on a message by somebody else that
is wanted afterwards just if there was one, the message stood as a ghost before, and it is wanted
only as the root of a thread that was never seen. No marker is left on such a message. All other
markers on wanted messages by somebody else stay as they were. -/
theorem stages_marker_kept_iff (config : EngineConfig) (trust : Trust) (now : Timestamp)
    (l : List Stage) {a : IdentityId} {x : MessageId} (hx : x.author ≠ a) :
    let before := ((new config trust now).stages l).state
    let after := (((new config trust now).stages l).deleteIdentity a).1.state
    let lost := Subject.message x ∈ before.markers ∧ (∃ b, x ∈ (before.board b).ghostIds) ∧
      after.WantedAsRoot x
    after.Wanted x →
      (after.markers[Subject.message x]? = before.markers[Subject.message x]? ↔ ¬ lost) ∧
        (lost → after.markers[Subject.message x]? = none) := by
  intro before after lost hwanted
  have hlost : lost ↔ Subject.message x ∈ before.markers ∧ before.Outgrows a x :=
    and_congr_right fun _ => (State.Wanted.outgrows_iff hwanted).symm
  rw [hlost]
  by_cases houtgrows : before.Outgrows a x
  · have hnone : after.markers[Subject.message x]? = none :=
      State.getElem?_markers_of_outgrows houtgrows
    refine ⟨?_, fun _ => hnone⟩
    rw [hnone, Std.ExtTreeMap.mem_iff_isSome_getElem?]
    cases before.markers[Subject.message x]? <;> simp [houtgrows]
  · have hkept : after.markers[Subject.message x]? = before.markers[Subject.message x]? :=
      State.getElem?_markers_of_not_outgrows hx houtgrows
    exact ⟨iff_of_true hkept fun h => houtgrows h.2, fun h => absurd h.2 houtgrows⟩

/-- The marker on a parent that a reply waits for outlives the root of their thread. -/
theorem ring_marker_kept :
    let l : List Stage := [.op (.receive Board.Ring.root none), .op (.receive Board.Ring.first none),
      .op (.fail (.message Board.Ring.second.id) .notFound)]
    let before := (new {} .everyone 0).stages l
    let after := (before.deleteIdentity Board.Ring.root.author).1
    Board.Ring.second.author ≠ Board.Ring.root.author ∧ after.state.Wanted Board.Ring.second.id ∧
      Subject.message Board.Ring.second.id ∈ before.state.markers ∧
      after.state.markers[Subject.message Board.Ring.second.id]? =
        before.state.markers[Subject.message Board.Ring.second.id]? := by
  intro l before after
  have hauthor : Board.Ring.second.id.author ≠ Board.Ring.root.author := by decide
  have hghost : Board.Ring.second.id ∈ (after.state.board Board.Ring.board).ghostIds := by
    decide +kernel
  have hwanted : after.state.Wanted Board.Ring.second.id := .inr ⟨Board.Ring.board, .inl hghost⟩
  refine ⟨hauthor, hwanted, by decide +kernel, ?_⟩
  refine (stages_marker_kept_iff {} .everyone 0 l hauthor hwanted).1.2 fun hlost => ?_
  exact hlost.2.2.2.1 Board.Ring.board hghost

/-- A deletion lets a message be fetched at once although its last fetch failed just before. The
message is the parent of a reply, which goes, and the root of a thread, whose reply stays. -/
theorem ring_marker_lost :
    let l : List Stage := [.op (.receive Board.Ring.first none), .op (.receive Board.Ring.aside none),
      .op (.fail (.message Board.Ring.second.id) .notFound)]
    let before := (new {} .everyone 0).stages l
    let after := (before.deleteIdentity Board.Ring.first.author).1
    Board.Ring.second.author ≠ Board.Ring.first.author ∧
      after.state.Wanted Board.Ring.second.id ∧
      (before.toFetch = [Board.Ring.root.id] ∧ after.toFetch = [Board.Ring.second.id]) ∧
      before.state.markers[Subject.message Board.Ring.second.id]? = some (.first {} .notFound 0) ∧
      after.state.markers[Subject.message Board.Ring.second.id]? = none := by
  intro l before after
  have hroot : Board.Ring.second.id ∈ State.unknownRoots (after.state.board Board.Ring.board) := by
    decide +kernel
  exact ⟨by decide, .inr ⟨Board.Ring.board, .inr hroot⟩, by decide +kernel, by decide +kernel,
    by decide +kernel⟩

end Engine

end Noticeboard
