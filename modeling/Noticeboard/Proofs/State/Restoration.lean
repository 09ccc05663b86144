import Noticeboard.Proofs.State.Copies

/-!
# Restored states

A snapshot has one copy of each stored message and no thread. If an id always stands for the same
message, the boards rebuilt from it are those that it was taken of. What a restored state may lose is
the record of downloads that no list refers to, and nothing that an engine answers depends on it
(`Engine.run_restored`).
-/

namespace Noticeboard

namespace ListIndex

variable {ix : ListIndex} {x : MessageId}

/-- Lists that flag a message already stay as they are when it is downloaded. -/
theorem lists_markDownloaded_of_flagged (h : ∀ (k : ListId) (l : MessageList),
    ix.lists[k]? = some l → ∀ r ∈ l.references, r.message = x → r.downloaded = true) :
    (ix.markDownloaded x).1.lists = ix.lists := by
  rw [markDownloaded]
  split
  · rfl
  · refine Std.ExtTreeMap.ext_getElem? fun k => ?_
    rw [getElem?_foldl_modify]
    split
    · cases hl : ix.lists[k]? with
      | none => rfl
      | some l => rw [Option.map_some, flag_eq_self (h k l hl)]
    · rfl

theorem lists_foldl_markDownloaded {ids : List MessageId} (h : ∀ (k : ListId) (l : MessageList),
    ix.lists[k]? = some l → ∀ r ∈ l.references, r.message ∈ ids → r.downloaded = true) :
    (ids.foldl (fun ix id => (ix.markDownloaded id).1) ix).lists = ix.lists := by
  induction ids generalizing ix with
  | nil => rfl
  | cons id rest ih =>
    have hid : (ix.markDownloaded id).1.lists = ix.lists :=
      lists_markDownloaded_of_flagged fun k l hl r hr he => h k l hl r hr (List.mem_cons.2 (.inl he))
    rw [List.foldl_cons, ih, hid]
    intro k l hl r hr hmem
    exact h k l (hid ▸ hl) r hr (List.mem_cons_of_mem id hmem)

theorem lists_foldl_restore (ls : List MessageList) (ix : ListIndex) :
    (ls.foldl restore ix).lists = ls.foldl (fun m l => m.insert l.id l) ix.lists :=
  (List.foldl_hom ListIndex.lists fun _ _ => rfl).symm

end ListIndex

namespace State

variable {s : State} {ms : List Message} {now : Timestamp} {b : BoardName} {id : MessageId}
  {m : Message}

/-! ## What a snapshot holds -/

/-- A snapshot has of each message the copy that is found by its id. -/
theorem getElem?_allMessages (s : State) (id : MessageId) : s.allMessages[id]? = s.message? id := by
  have hboard (all : IdMap Message) (e : BoardName × Board) :
      (e.2.messages.toList.foldl (fun all e => all.insertIfNew e.1 e.2) all)[id]? =
        all[id]?.or e.2.messages[id]? := by
    rw [getElem?_foldl_insertIfNew, map_find?_toList]
  have hboards := getElem?_foldl_or hboard s.boards.toList ∅
  rw [Std.ExtTreeMap.getElem?_empty, Option.none_or] at hboards
  exact hboards

theorem mem_messages_snapshot_iff (h : s.Sound) (now : Timestamp) :
    m ∈ (s.snapshot now).messages ↔ s.message? m.id = some m := by
  simp only [snapshot, List.mem_map, Prod.exists, exists_eq_right,
    Std.ExtTreeMap.mem_toList_iff_getElem?_eq_some, getElem?_allMessages]
  constructor
  · rintro ⟨id, hm⟩
    rwa [(stores_of_message? h hm).1]
  · exact fun hm => ⟨m.id, hm⟩

theorem mem_ids_snapshot (h : s.Sound) (now : Timestamp) :
    id ∈ (s.snapshot now).messages.map (·.id) ↔ s.isStored id = true := by
  rw [List.mem_map, isStored_iff_message?]
  simp only [mem_messages_snapshot_iff h]
  constructor
  · rintro ⟨m, hm, rfl⟩
    exact ⟨m, hm⟩
  · rintro ⟨m, hm⟩
    obtain ⟨rfl, -⟩ := stores_of_message? h hm
    exact ⟨m, hm, rfl⟩

theorem mem_messages_snapshot (h : s.Sound) (hshared : s.Shared ms) (now : Timestamp) :
    m ∈ (s.snapshot now).messages ↔ ∃ b, s.Stores b m := by
  rw [mem_messages_snapshot_iff h]
  exact ⟨fun hm => (stores_of_message? h hm).2, fun ⟨_, hm⟩ => hshared.message?_eq h hm⟩

theorem getD_deletedRoots_snapshot (s : State) (now : Timestamp) (b : BoardName) (k : MessageId) :
    k ∈ (s.snapshot now).deletedRoots[b]?.getD [] ↔ k ∈ (s.board b).deletedRoots := by
  rw [snapshot, Std.ExtTreeMap.getElem?_map, Std.ExtTreeMap.getElem?_filter', board]
  cases hg : s.boards[b]? with
  | none => simp [Board.empty]
  | some g =>
    rw [Option.filter_some]
    cases hempty : g.deletedRoots.isEmpty with
    | true => simp [Std.ExtTreeSet.isEmpty_iff.1 hempty]
    | false => simp

theorem mem_boardsIn_snapshot (h : s.Sound) (hshared : s.Shared ms) :
    b ∈ boardsIn (s.snapshot now) ↔ b ∈ s.boards := by
  rw [boardsIn, mem_ofList, List.mem_append, List.mem_append, List.mem_flatMap, snapshot]
  simp only [Std.ExtTreeMap.mem_keys, Std.ExtTreeMap.mem_map, Std.ExtTreeSet.mem_toList]
  refine ⟨?_, fun hb => .inl (.inl hb)⟩
  rintro ((hb | hb) | ⟨m, hm, hb⟩)
  · exact hb
  · exact Std.ExtTreeMap.mem_of_mem_filter hb
  · obtain ⟨b', hm⟩ := (mem_messages_snapshot h hshared now).1 hm
    have hm := hshared.spread b' m hm b (Std.ExtTreeSet.mem_iff_contains.1 hb)
    exact mem_iff_getElem?.2 ⟨_, mem_boards_of_stores hm⟩

/-! ## What is brought back -/

theorem rebuiltBoards_snapshot (h : s.Sound) (hshared : s.Shared ms) (now : Timestamp) :
    rebuiltBoards (s.snapshot now) = s.boards := by
  refine Std.ExtTreeMap.ext_getElem? fun b => ?_
  rw [rebuiltBoards, getElem?_ofList_map]
  simp only [mem_boardsIn_snapshot h hshared]
  split
  · next hb =>
    obtain ⟨g, hg⟩ := mem_iff_getElem?.1 hb
    have hmessages (m : Message) : (m ∈ (s.snapshot now).messages ∧
        m.targets (s.board b).name = true) ↔ (s.board b).messages[m.id]? = some m := by
      rw [mem_messages_snapshot h hshared now, h.named]
      constructor
      · rintro ⟨⟨b', hm⟩, hb⟩
        exact hshared.spread b' m hm b hb
      · exact fun hm => ⟨⟨b, hm⟩, h.targets hm⟩
    have hrebuild := (h.coherent b).eq_rebuild hmessages (getD_deletedRoots_snapshot s now b)
    rw [h.named] at hrebuild
    rw [← hrebuild, hg, board_eq hg]
  · next hb => rw [Std.ExtTreeMap.getElem?_eq_none hb]

/-- A fresh state with a snapshot of `s`. -/
def restored (s : State) (now : Timestamp) : State := (empty.restore (s.snapshot now)).1

theorem restore_eq (s : State) (now : Timestamp) :
    empty.restore (s.snapshot now) = (s.restored now, .ok ()) := by
  have hversion : (s.snapshot now).version = Snapshot.currentVersion := rfl
  rw [restored, restore, if_neg (not_not_intro hversion)]

theorem restored_eq (s : State) (now : Timestamp) : s.restored now =
    { boards := rebuiltBoards (s.snapshot now)
      lists := restoredLists .empty (s.snapshot now)
      markers := s.markers
      subscriptions := s.subscriptions
      outbox := s.outbox
      deleted := s.deleted } := by
  have hversion : (s.snapshot now).version = Snapshot.currentVersion := rfl
  have hdeleted : empty.deleted.insertMany s.deleted.toList = s.deleted := by
    refine Std.ExtTreeSet.ext_mem fun a => ?_
    simp [Std.ExtTreeSet.mem_insertMany_list, empty]
  have hmarkers : Markers.ofEntries s.markers.toList = s.markers := ofList_toList s.markers
  rw [restored, restore, if_neg (not_not_intro hversion)]
  simp only [snapshot, hmarkers, hdeleted]
  rfl

theorem restoredLists_eq (ix : ListIndex) (p : Snapshot) : restoredLists ix p =
    (p.messages.map (·.id)).foldl (fun ix id => (ix.markDownloaded id).1)
      (p.lists.foldl ListIndex.restore ix) := by
  rw [restoredLists, List.foldl_map]

theorem Sound.lists_restored (h : s.Sound) (now : Timestamp) :
    (s.restored now).lists.lists = s.lists.lists := by
  have hput : ((s.snapshot now).lists.foldl ListIndex.restore .empty).lists = s.lists.lists := by
    rw [ListIndex.lists_foldl_restore]
    exact foldl_insert_values h.lists.keyed
  rw [restored_eq, restoredLists_eq, ListIndex.lists_foldl_markDownloaded, hput]
  intro k l hl r hr hmem
  rw [h.lists.flagged k l (hput ▸ hl) r hr, ← Std.ExtTreeSet.mem_iff_contains]
  exact h.mem_downloaded ((mem_ids_snapshot h now).1 hmem)

/-- The state that a snapshot brings back, but for the record of downloads. -/
theorem restore_snapshot (h : s.Sound) (hshared : s.Shared ms) (now : Timestamp) :
    ∃ lists : ListIndex, empty.restore (s.snapshot now) = ({ s with lists }, .ok ()) ∧
      lists.lists = s.lists.lists := by
  have hsame : s.restored now = { s with lists := (s.restored now).lists } := by
    rw [restored_eq, rebuiltBoards_snapshot h hshared]
  refine ⟨(s.restored now).lists, ?_, h.lists_restored now⟩
  rw [restore_eq, ← hsame]

end State

namespace Engine

/-- Two engines have the same boards and answer alike. -/
structure Alike (e e' : Engine) : Prop where
  boards : e.state.boards = e'.state.boards
  threads : ∀ viewer b, e.state.threads e.trust viewer b = e'.state.threads e'.trust viewer b
  replies : ∀ viewer b thread,
    e.state.replies e.trust viewer b thread = e'.state.replies e'.trust viewer b thread
  messageCount : ∀ viewer b,
    e.state.messageCount e.trust viewer b = e'.state.messageCount e'.trust viewer b
  toFetch : e.toFetch = e'.toFetch
  listsToFetch : e.listsToFetch = e'.listsToFetch
  plan : ∀ identity, e.state.plan identity = e'.state.plan identity
  isDeleted : ∀ identity, e.state.isDeleted identity = e'.state.isDeleted identity
  pending : e.state.outbox.pending = e'.state.outbox.pending
  status : e.status.2 = e'.status.2
  snapshot : e.snapshot = e'.snapshot

/-- What an engine answers does not depend on its counters, nor on the parts of the index of lists
that follow from the lists. -/
theorem alike_of_lists {e e' : Engine} (hconfig : e.config = e'.config) (htrust : e.trust = e'.trust)
    (hnow : e.now = e'.now) (hstate : e.state = { e'.state with lists := e.state.lists })
    (hlists : e.state.lists.lists = e'.state.lists.lists) : Alike e e' := by
  obtain ⟨config, trust, now, ⟨boards, ⟨ls, a, d⟩, markers, subscriptions, outbox, deleted⟩, c⟩ := e
  obtain ⟨_, _, _, ⟨_, ⟨_, _, _⟩, _, _, _, _⟩, _⟩ := e'
  simp only [State.mk.injEq, true_and] at hconfig htrust hnow hstate hlists
  obtain ⟨rfl, rfl, rfl, rfl, rfl⟩ := hstate
  subst hconfig htrust hnow hlists
  exact ⟨rfl, fun _ _ => rfl, fun _ _ _ => rfl, fun _ _ => rfl, rfl, rfl, fun _ => rfl,
    fun _ => rfl, rfl, rfl, rfl⟩

/-- In every run in which an id always stands for the same message, an engine restored from a
snapshot has the same boards and answers alike, and its own snapshot is the one it was restored
from. -/
theorem run_restored (config : EngineConfig) (trust : Trust) (now : Timestamp) {ops : List Op}
    (hone : Consistent ops) :
    let e := run config trust now ops
    let restored := (new config trust e.now).restore e.snapshot
    restored.2 = .ok () ∧ Alike restored.1 e := by
  intro e restored
  obtain ⟨lists, heq, hlists⟩ := State.restore_snapshot (sound_run config trust now ops)
    (shared_run config trust now hone) e.now
  have hrestore : (new config trust e.now).state.restore e.snapshot =
      ({ e.state with lists }, .ok ()) := heq
  have hrestored : ∃ counters, restored = (⟨config, trust, e.now, { e.state with lists }, counters⟩,
      .ok ()) := by
    simp only [restored, restore, hrestore]
    exact ⟨_, rfl⟩
  obtain ⟨counters, hrestored⟩ := hrestored
  have hconfig : e.config = config := config_steps _ ops
  have htrust : e.trust = trust := trust_steps _ ops
  rw [hrestored]
  exact ⟨rfl, alike_of_lists hconfig.symm htrust.symm rfl rfl hlists⟩

/-- A board where a thread outlived its root, a list with one message still to fetch, and an own
message that waits to be published. -/
theorem ring_restored :
    let viewer : IdentityId := ⟨.ofNat 256 9⟩
    let own : Message := .newThread ⟨viewer, ⟨3⟩⟩ "mine" "" 9 {Board.Ring.board}
    let ops : List Op := [.subscribe viewer Board.Ring.board, .receive Board.Ring.first none,
      .receiveList ⟨Board.Ring.second.author, 0⟩
        [⟨Board.Ring.second.id, Board.Ring.board, 0, "", false⟩] 0,
      .receive Board.Ring.root none, .deleteIdentity Board.Ring.root.author, .queueOwn own]
    let e := run {} .everyone 0 ops
    let restored := (new {} .everyone e.now).restore e.snapshot
    Consistent ops ∧ e.toFetch = [Board.Ring.second.id] ∧
      e.state.outbox.pending = [own] ∧ restored.2 = .ok () ∧ Alike restored.1 e := by
  intro viewer own ops e restored
  have hone : Consistent ops := by decide +kernel
  exact ⟨hone, by decide +kernel, by decide +kernel, run_restored {} .everyone 0 hone⟩

end Engine

end Noticeboard
