import Noticeboard.Proofs.Board.RemovalReport
import Noticeboard.Proofs.State.Commuting
import Noticeboard.Proofs.State.Refusals

/-!
# Deletions go as planned

What `State.plan` counts beforehand is what `State.deleteIdentity` then reports
(`Engine.Reachable.deleted_as_planned`). The plan counts messages by the author found in them, and
the deletion takes them away by the author found in the ids under which they are kept. These are the
same in every state that can be reached, whatever snapshots it went through, since everything is kept
under its own id (`State.Keyed`).

A deletion leaves nothing by the identity, markers and downloads included (`State.Cleared`). Where
nothing is left there is nothing to plan, and another deletion has no effect.
-/

namespace Noticeboard

/-! ## Everything is kept under its own id -/

namespace Board

variable {g : Board}

theorem Keyed.ingested (h : Keyed g.messages) (m : Message) : Keyed (g.ingested m).messages := by
  cases htargets : m.targets g.name with
  | false => rwa [ingested_of_not_targets htargets]
  | true =>
    cases hm : g.messages[m.id]? with
    | some x => rwa [ingested_of_stored hm]
    | none =>
      rw [ingested_eq_insert htargets hm, messages_insert]
      exact h.insert m

theorem Keyed.removed (h : Keyed g.messages) (id : MessageId) (tombstone : Bool) :
    Keyed (g.removed id tombstone).messages := by
  rw [messages_removed h]
  exact h.erase id

theorem Keyed.removeAuthor (h : Keyed g.messages) (author : IdentityId) :
    Keyed (g.removeAuthor author).1.messages := by
  intro q m hm
  rw [messages_removeAuthor h] at hm
  split at hm
  · cases hm
  · exact h q m hm

theorem messages_markDeletedRoot (g : Board) (k : MessageId) :
    (g.markDeletedRoot k).1.messages = g.messages := by
  rw [markDeletedRoot]
  split
  · split <;> rfl
  · rfl

theorem keyed_rebuild (name : BoardName) (ms : List Message) (roots : List MessageId) :
    Keyed (rebuild name ms roots).messages := by
  rw [rebuild]
  refine List.foldlRecOn (motive := fun g : Board => Keyed g.messages) roots _ ?_ fun g h k _ => ?_
  · refine List.foldlRecOn (motive := fun g : Board => Keyed g.messages) _ _ ?_ fun g h m _ =>
      h.ingested m
    simp [Keyed, empty]
  · rwa [messages_markDeletedRoot]

/-! ## What an author has on a board -/

theorem map_id_storedMessages (h : Keyed g.messages) :
    g.storedMessages.map (·.id) = g.messages.keys := by
  rw [storedMessages, List.map_map, ← Std.ExtTreeMap.map_fst_toList_eq_keys]
  refine List.map_congr_left fun e he => ?_
  exact h e.1 e.2 (Std.ExtTreeMap.mem_toList_iff_getElem?_eq_some.1 he)

/-- The footprint of an author counts the messages that a removal takes away. -/
theorem footprint_messages (h : Keyed g.messages) (author : IdentityId) :
    (g.footprint author).messages = (g.authored author).length := by
  rw [authored, ← map_id_storedMessages h, List.filter_map, List.length_map]
  rfl

theorem authored_removeAuthor (h : Keyed g.messages) (author : IdentityId) :
    (g.removeAuthor author).1.authored author = [] := by
  refine List.eq_nil_iff_forall_not_mem.2 fun id hid => ?_
  obtain ⟨hid, hauthor⟩ := mem_authored.1 hid
  obtain ⟨m, hm⟩ := mem_iff_getElem?.1 hid
  rw [messages_removeAuthor h, if_pos hauthor] at hm
  cases hm

/-- Where an author has nothing, its removal has no effect. -/
theorem removeAuthor_of_authored_nil {author : IdentityId} (h : g.authored author = []) :
    (g.removeAuthor author).1 = g ∧ (g.removeAuthor author).2.removed = [] := by
  simp only [removeAuthor, h]
  exact ⟨rfl, rfl⟩

end Board

namespace ListIndex

variable {ix : ListIndex}

/-- Lists are kept under their own ids. -/
def Keyed (ix : ListIndex) : Prop :=
  ∀ (k : ListId) (l : MessageList), ix.lists[k]? = some l → l.id = k

theorem Keyed.markDownloaded (h : ix.Keyed) (x : MessageId) : (ix.markDownloaded x).1.Keyed := by
  intro k l hl
  rw [ListIndex.markDownloaded] at hl
  split at hl
  · exact h k l hl
  · rw [getElem?_foldl_modify] at hl
    split at hl
    · obtain ⟨l', hl', rfl⟩ := Option.map_eq_some_iff.1 hl
      exact h k l' hl'
    · exact h k l hl

theorem Keyed.foldl_markDownloaded (h : ix.Keyed) (ids : List MessageId) :
    (ids.foldl (fun ix x => (ix.markDownloaded x).1) ix).Keyed :=
  List.foldlRecOn (motive := Keyed) ids _ h fun _ h x _ => h.markDownloaded x

theorem Keyed.insert (h : ix.Keyed) (l : MessageList) {a : IdMap (Std.ExtTreeSet ListId)}
    {d : IdSet} : Keyed ⟨ix.lists.insert l.id l, a, d⟩ := by
  intro k l' hl
  rw [Std.ExtTreeMap.getElem?_insert] at hl
  split at hl
  · next hk =>
    cases hl
    exact Std.LawfulEqOrd.eq_of_compare hk
  · exact h k l' hl

theorem Keyed.receive {ix' : ListIndex} {limits : ListLimits} {id : ListId}
    {references : List Announcement} {received : Timestamp} {wanted : List MessageId} (h : ix.Keyed)
    (hlists : ix.receive limits id references received = .ok (ix', wanted)) : ix'.Keyed := by
  obtain ⟨-, rfl, -⟩ | ⟨-, -, -, rfl⟩ := receive_cases hlists
  · exact h
  · exact h.insert { id, received, references := ix.kept references }

theorem Keyed.removeAuthor (h : ix.Keyed) (author : IdentityId) :
    (ix.removeAuthor author).1.Keyed := by
  intro k l hl
  rw [lists_removeAuthor] at hl
  split at hl
  · cases hl
  · exact h k l hl

end ListIndex

namespace State

variable {s s' : State} {a : IdentityId} {b : BoardName}

/-- Boards, messages and lists are kept under their own names and ids. -/
structure Keyed (s : State) : Prop where
  named : s.Named
  boards : ∀ b, Board.Keyed (s.board b).messages
  lists : s.lists.Keyed

theorem keyed_empty : empty.Keyed := by
  refine ⟨named_empty, fun b q m hm => ?_, fun k l hl => ?_⟩
  · simp [board, empty, Board.empty] at hm
  · simp [empty, ListIndex.empty] at hl

namespace Keyed

theorem congr (h : s.Keyed) (hboards : ∀ b, s'.board b = s.board b) (hlists : s'.lists.Keyed) :
    s'.Keyed :=
  ⟨h.named.congr hboards, fun b => hboards b ▸ h.boards b, hlists⟩

theorem settle (h : s.Keyed) (id : MessageId) : (s.settle id).Keyed :=
  h.congr (fun _ => rfl) (h.lists.markDownloaded id)

theorem receive (h : s.Keyed) (limits : Limits) (m : Message) (announcedBy : Option IdentityId) :
    (s.receive limits m announcedBy).1.Keyed := by
  refine ⟨h.named.receive limits m announcedBy, fun b => ?_, ?_⟩
  all_goals
    obtain ⟨-, heq⟩ | ⟨-, fault, -, heq⟩ | ⟨-, -, boards, reports, heq, hboards⟩ :=
      receive_cases h.named limits m announcedBy
    all_goals rw [heq]
  · exact h.boards b
  · exact h.boards b
  · rw [board_filed h.named hboards]
    exact (h.boards b).ingested m
  · exact h.lists
  · exact h.lists.markDownloaded m.id
  · exact h.lists.markDownloaded m.id

theorem receiveList (h : s.Keyed) (limits : ListLimits) (id : ListId)
    (references : List Announcement) (received : Timestamp) :
    (s.receiveList limits id references received).1.Keyed := by
  obtain ⟨e, heq⟩ | ⟨-, lists, wanted, hlists, heq⟩ :=
    receiveList_cases s limits id references received
  · rw [heq]
    exact h
  · rw [heq]
    exact h.congr (fun _ => rfl) ((h.lists.receive hlists).foldl_markDownloaded _)

theorem deleteIdentity (h : s.Keyed) (a : IdentityId) : (s.deleteIdentity a).1.Keyed := by
  refine ⟨h.named.deleteIdentity a, fun b => ?_, h.lists.removeAuthor a⟩
  rw [board_deleteIdentity]
  exact (h.boards b).removeAuthor a

theorem queueOwn (h : s.Keyed) (limits : Limits) (m : Message) (now : Timestamp) :
    (s.queueOwn limits m now).1.Keyed := by
  have hqueued : State.Keyed { s with outbox := s.outbox.queue m now } :=
    h.congr (fun _ => rfl) h.lists
  exact queueOwn_keep h fun _ _ => hqueued.receive limits m (some m.author)

theorem unsend (h : s.Keyed) (id : MessageId) : (s.unsend id).1.Keyed := by
  refine ⟨h.named.unsend id, ?_, ?_⟩
  · refine unsend_keep (p := fun s => ∀ b, Board.Keyed (s.board b).messages) h.boards fun b => ?_
    rw [board_takeDown]
    exact (h.boards b).removed id false
  · exact unsend_keep (p := fun s => s.lists.Keyed) h.lists h.lists

theorem restore (h : s.Keyed) (p : Snapshot) : (s.restore p).1.Keyed := by
  have hnamed := h.named.restore p
  rw [State.restore] at hnamed ⊢
  split
  · exact h
  · next hversion =>
    rw [if_neg hversion] at hnamed
    refine ⟨hnamed, fun b => ?_, ?_⟩
    · obtain ⟨roots, heq⟩ := rebuilt_board p b
      show Board.Keyed ((rebuiltBoards p)[b]?.getD (.empty b)).messages
      rw [heq]
      exact Board.keyed_rebuild b p.messages roots
    · have hput : (p.lists.foldl ListIndex.restore s.lists).Keyed :=
        List.foldlRecOn (motive := ListIndex.Keyed) p.lists _ h.lists fun _ h l _ => h.insert l
      show (restoredLists s.lists p).Keyed
      rw [restoredLists_eq]
      exact hput.foldl_markDownloaded _

end Keyed

end State

namespace Engine

variable {e : Engine}

theorem keyed_step (h : e.state.Keyed) (op : Op) : (e.step op).state.Keyed := by
  cases op with
  | receive m announcedBy => exact h.receive e.config.validation m announcedBy
  | receiveList id references received => exact h.receiveList e.config.lists id references received
  | discard id => exact h.settle id
  | deleteIdentity identity => exact h.deleteIdentity identity
  | subscribe viewer name => exact h.congr (State.board_subscribe e.state viewer name) h.lists
  | queueOwn m => exact h.queueOwn e.config.validation m e.now
  | unsend id => exact h.unsend id
  | fail | sweep | retainMarkers | unsubscribe | markPublished | markPublishFailed | setClock =>
    exact h.congr (fun _ => rfl) h.lists

theorem Reachable.keyed (h : e.Reachable) : e.state.Keyed := by
  induction h with
  | new config trust now => exact State.keyed_empty
  | step op _ ih => exact keyed_step ih op
  | restore p _ ih =>
    rw [(state_restore _ p).1]
    exact ih.restore p

end Engine

/-! ## The plan and the report -/

namespace State

variable {s : State} {a : IdentityId} {b : BoardName} {r : RemovalReport}

theorem boards_report (s : State) (a : IdentityId) : (s.deleteIdentity a).2.boards =
    ((s.boards.map fun _ g => g.removeAuthor a).map fun _ r => r.2).filter fun _ r =>
      !r.removed.isEmpty :=
  rfl

theorem getElem?_boards_report : (s.deleteIdentity a).2.boards[b]? = some r ↔
    ∃ g, s.boards[b]? = some g ∧ (g.removeAuthor a).2 = r ∧ r.removed ≠ [] := by
  rw [boards_report, Std.ExtTreeMap.getElem?_filter', Option.filter_eq_some_iff]
  simp only [Std.ExtTreeMap.getElem?_map, Option.map_map, Option.map_eq_some_iff,
    Function.comp_apply, Bool.not_eq_true', List.isEmpty_eq_false_iff]
  constructor
  · rintro ⟨⟨g, hg, hr⟩, hne⟩
    exact ⟨g, hg, hr, hne⟩
  · rintro ⟨g, hg, hr, hne⟩
    exact ⟨⟨g, hg, hr⟩, hne⟩

namespace Keyed

theorem of_board (h : s.Keyed) {g : Board} (hg : s.boards[b]? = some g) :
    Board.Keyed g.messages :=
  board_eq hg ▸ h.boards b

/-- A message on several boards counts once, before and after. -/
theorem messagesRemoved_eq (h : s.Keyed) (a : IdentityId) :
    (s.deleteIdentity a).2.messagesRemoved = (s.plan a).messages := by
  have hsame (x : MessageId) :
      (∃ r ∈ (s.deleteIdentity a).2.boards.values, x ∈ r.removed) ↔
        ∃ e ∈ s.boards.toList, x ∈ e.2.authored a := by
    simp only [mem_values, getElem?_boards_report, Prod.exists,
      Std.ExtTreeMap.mem_toList_iff_getElem?_eq_some]
    constructor
    · rintro ⟨_, ⟨b, g, hg, rfl, -⟩, hx⟩
      exact ⟨b, g, hg, Board.removed_removeAuthor (h.of_board hg) a ▸ hx⟩
    · rintro ⟨b, g, hg, hx⟩
      rw [← Board.removed_removeAuthor (h.of_board hg) a] at hx
      exact ⟨_, ⟨b, g, hg, rfl, List.ne_nil_of_mem hx⟩, hx⟩
  have hids : (.ofList ((s.deleteIdentity a).2.boards.values.flatMap (·.removed)) : IdSet) =
      .ofList (s.boards.toList.flatMap fun e => e.2.authored a) := by
    refine Std.ExtTreeSet.ext_mem fun x => ?_
    rw [mem_ofList, mem_ofList, List.mem_flatMap, List.mem_flatMap]
    exact hsame x
  exact congrArg Std.ExtTreeSet.size hids

theorem keys_boards_eq (h : s.Keyed) (a : IdentityId) :
    (s.deleteIdentity a).2.boards.keys = (s.plan a).boards := by
  have hplan : (s.plan a).boards =
      ((s.boards.toList.map fun e => (e.1, e.2.footprint a)).filter fun e =>
        e.2.messages != 0).map (·.1) := rfl
  rw [hplan, boards_report, ← Std.ExtTreeMap.map_fst_toList_eq_keys, Std.ExtTreeMap.toList_filter,
    Std.ExtTreeMap.toList_map, Std.ExtTreeMap.toList_map, List.map_map, List.filter_map,
    List.filter_map, List.map_map, List.map_map]
  have hsame (e : BoardName × Board) (he : e ∈ s.boards.toList) :
      (!(e.2.removeAuthor a).2.removed.isEmpty) = ((e.2.footprint a).messages != 0) := by
    have hkeyed := h.of_board (Std.ExtTreeMap.mem_toList_iff_getElem?_eq_some.1 he)
    rw [Board.removed_removeAuthor hkeyed, Board.footprint_messages hkeyed]
    cases e.2.authored a <;> rfl
  refine congrArg (List.map (·.1)) (List.filter_congr fun e he => hsame e he)

end Keyed

theorem outboxDropped_eq (s : State) (a : IdentityId) :
    (s.deleteIdentity a).2.outboxDropped = (s.plan a).queued := by
  have hdropped : (s.deleteIdentity a).2.outboxDropped =
      s.outbox.size - (s.outbox.filter fun id _ => id.author != a).size := rfl
  have hqueued : (s.plan a).queued = (s.outbox.filter fun id _ => id.author == a).size := rfl
  have hsize := size_filter_add_size_filter_not s.outbox fun id _ => id.author == a
  rw [hdropped, hqueued]
  simp only [bne]
  omega

/-! ## Nothing is left -/

/-- The identity is deleted and a state has nothing of it. -/
structure Cleared (s : State) (a : IdentityId) : Prop extends s.Keyed where
  deleted : a ∈ s.deleted
  authored : ∀ (b : BoardName) (g : Board), s.boards[b]? = some g → g.authored a = []
  editions : ∀ k ∈ s.lists.lists, k.author ≠ a
  downloaded : ∀ x ∈ s.lists.downloaded, x.author ≠ a
  markers : ∀ subject ∈ s.markers, subject.author ≠ a
  subscriptions : a ∉ s.subscriptions
  outbox : ∀ x ∈ s.outbox, x.author ≠ a

/-- A deletion leaves nothing of the identity. -/
theorem Keyed.cleared_deleteIdentity (h : s.Keyed) (a : IdentityId) :
    (s.deleteIdentity a).1.Cleared a where
  toKeyed := h.deleteIdentity a
  deleted := Std.ExtTreeSet.mem_insert_self
  authored b g hg := by
    rw [boards_deleteIdentity] at hg
    obtain ⟨g', hg', rfl⟩ := Option.map_eq_some_iff.1 hg
    exact Board.authored_removeAuthor (h.of_board hg') a
  editions k hk := (ListIndex.mem_lists_removeAuthor.1 hk).1
  downloaded x hx := (ListIndex.mem_downloaded_removeAuthor.1 hx).2
  markers subject hsubject := by
    obtain ⟨marker, hmarker⟩ := mem_iff_getElem?.1 hsubject
    exact (getElem?_markers_deleteIdentity.1 hmarker).2.1
  subscriptions := by
    show a ∉ s.subscriptions.erase a
    simp
  outbox x hx := by
    have hx : x ∈ s.outbox.removeAuthor a := hx
    simpa using (Std.ExtTreeMap.mem_filter.1 hx).2

end State

/-- A plan with nothing in it. -/
def DeletionPlan.nothing (a : IdentityId) : DeletionPlan := ⟨a, 0, 0, 0, [], 0, 0, 0⟩

/-- A report on nothing. -/
def DeletionReport.nothing (a : IdentityId) : DeletionReport := ⟨a, 0, 0, 0, 0, 0, 0, ∅⟩

namespace State.Cleared

variable {s : State} {a : IdentityId}

theorem listsOf_eq (h : s.Cleared a) : s.lists.listsOf a = [] := by
  refine List.filter_eq_nil_iff.2 fun l hl => ?_
  obtain ⟨⟨k, l⟩, hentry, rfl⟩ := List.mem_map.1 hl
  have hk := Std.ExtTreeMap.mem_toList_iff_getElem?_eq_some.1 hentry
  rw [h.lists k l hk, beq_iff_eq]
  exact h.editions k (mem_iff_getElem?.2 ⟨l, hk⟩)

theorem footprints_eq (h : s.Cleared a) : s.footprints a = [] := by
  refine List.filter_eq_nil_iff.2 fun e he => ?_
  obtain ⟨⟨b, g⟩, hentry, rfl⟩ := List.mem_map.1 he
  have hg := Std.ExtTreeMap.mem_toList_iff_getElem?_eq_some.1 hentry
  have hnone : (g.footprint a).messages = 0 := by
    rw [Board.footprint_messages (h.of_board hg), h.authored b g hg, List.length_nil]
  simp [hnone]

theorem outbox_filter_eq (h : s.Cleared a) : (s.outbox.filter fun id _ => id.author != a) = s.outbox := by
  refine Std.ExtTreeMap.filter_eq_self_iff.2 fun id hid => ?_
  rw [Std.ExtTreeMap.getKey_eq]
  simpa using h.outbox id hid

/-- Where nothing is left there is nothing to plan. -/
theorem plan_eq (h : s.Cleared a) : s.plan a = .nothing a := by
  have hauthored : s.boards.toList.flatMap (fun e => e.2.authored a) = [] := by
    refine List.flatMap_eq_nil_iff.2 fun e he => ?_
    exact h.authored e.1 e.2 (Std.ExtTreeMap.mem_toList_iff_getElem?_eq_some.1 he)
  have hqueued : s.outbox.countOf a = 0 := by
    have hsize := size_filter_add_size_filter_not s.outbox fun id _ => id.author == a
    have hkept := congrArg Std.ExtTreeMap.size h.outbox_filter_eq
    rw [Outbox.countOf]
    simp only [bne] at hkept
    omega
  have hplan : s.plan a =
      ⟨a, (.ofList (s.boards.toList.flatMap fun e => e.2.authored a) : IdSet).size,
        (s.lists.countOf a).1, (s.lists.countOf a).2, (s.footprints a).map (·.1),
        ((s.footprints a).map (·.2.rooted)).foldl (· + ·) 0,
        ((s.footprints a).map (·.2.touched.size)).foldl (· + ·) 0, s.outbox.countOf a⟩ := rfl
  rw [hplan, ListIndex.countOf, hauthored, hqueued, h.footprints_eq, h.listsOf_eq]
  rfl

theorem boards_eq (h : s.Cleared a) : (s.deleteIdentity a).1.boards = s.boards := by
  refine Std.ExtTreeMap.ext_getElem? fun b => ?_
  rw [boards_deleteIdentity]
  cases hg : s.boards[b]? with
  | none => rfl
  | some g => exact congrArg some (Board.removeAuthor_of_authored_nil (h.authored b g hg)).1

theorem lists_eq (h : s.Cleared a) : (s.deleteIdentity a).1.lists = s.lists := by
  have heditions : (s.lists.lists.filter fun k _ => k.author != a) = s.lists.lists := by
    refine Std.ExtTreeMap.filter_eq_self_iff.2 fun k hk => ?_
    rw [Std.ExtTreeMap.getKey_eq]
    simpa using h.editions k hk
  have hdownloaded : (s.lists.downloaded.filter fun x => x.author != a) = s.lists.downloaded := by
    refine Std.ExtTreeSet.ext_mem fun x => ?_
    rw [mem_set_filter]
    simpa using h.downloaded x
  show (s.lists.removeAuthor a).1 = s.lists
  rw [ListIndex.removeAuthor, heditions, hdownloaded, h.listsOf_eq]
  rfl

theorem markers_eq (h : s.Cleared a) : (s.deleteIdentity a).1.markers = s.markers := by
  refine Std.ExtTreeMap.ext_getElem? fun subject => Option.ext fun marker => ?_
  rw [getElem?_markers_deleteIdentity]
  refine and_iff_left_of_imp fun hmarker => ?_
  refine ⟨h.markers subject (mem_iff_getElem?.2 ⟨marker, hmarker⟩), ?_⟩
  rintro x - ⟨⟨b, hghost⟩, hnone, -⟩
  rw [← board_congr h.boards_eq] at hghost
  exact hnone b hghost

/-- Where nothing is left a deletion leaves the state as it is. -/
theorem state_eq (h : s.Cleared a) : (s.deleteIdentity a).1 = s := by
  refine ext_fields h.boards_eq h.lists_eq h.markers_eq ?_ h.outbox_filter_eq ?_
  · show s.subscriptions.erase a = s.subscriptions
    refine Std.ExtTreeMap.ext_getElem? fun viewer => ?_
    rw [Std.ExtTreeMap.getElem?_erase]
    split
    · next hviewer =>
      rw [← Std.LawfulEqOrd.eq_of_compare hviewer, Std.ExtTreeMap.getElem?_eq_none h.subscriptions]
    · rfl
  · show s.deleted.insert a = s.deleted
    refine Std.ExtTreeSet.ext_mem fun x => ?_
    rw [Std.ExtTreeSet.mem_insert, Std.LawfulEqOrd.compare_eq_iff_eq]
    refine or_iff_right_of_imp ?_
    rintro rfl
    exact h.deleted

/-- Where nothing is left a deletion has nothing to report. -/
theorem report_eq (h : s.Cleared a) : (s.deleteIdentity a).2 = .nothing a := by
  have hboards : (s.deleteIdentity a).2.boards = ∅ := by
    refine Std.ExtTreeMap.ext_getElem? fun b => ?_
    rw [Std.ExtTreeMap.getElem?_empty, Option.eq_none_iff_forall_ne_some]
    intro r hr
    obtain ⟨g, hg, rfl, hremoved⟩ := getElem?_boards_report.1 hr
    exact hremoved (Board.removeAuthor_of_authored_nil (h.authored b g hg)).2
  have hmarkers : s.markers.pruneAuthor a = s.markers := by
    refine Std.ExtTreeMap.filter_eq_self_iff.2 fun subject hsubject => ?_
    rw [Std.ExtTreeMap.getKey_eq]
    simpa using h.markers subject hsubject
  have hfollowed : ByViewer.of s.subscriptions a = ∅ := by
    rw [ByViewer.of, Std.ExtTreeMap.getElem?_eq_none h.subscriptions, Option.getD_none]
  have hreport : (s.deleteIdentity a).2 =
      ⟨a, (.ofList ((s.deleteIdentity a).2.boards.values.flatMap (·.removed)) : IdSet).size,
        ((s.lists.listsOf a).map (·.id)).length,
        ((s.lists.listsOf a).map (·.references.length)).foldl (· + ·) 0,
        (s.markers.size - (s.markers.pruneAuthor a).size) +
          ((s.markers.pruneAuthor a).size - (s.deleteIdentity a).1.markers.size),
        (ByViewer.of s.subscriptions a).size,
        s.outbox.size - (s.outbox.filter fun id _ => id.author != a).size,
        (s.deleteIdentity a).2.boards⟩ := rfl
  have hvalues : (∅ : BoardMap RemovalReport).values = [] := rfl
  rw [hreport, hboards, hvalues, h.listsOf_eq, h.markers_eq, hmarkers, hfollowed,
    h.outbox_filter_eq, Nat.sub_self, Nat.sub_self]
  rfl

end State.Cleared

namespace Engine

/-- In every state that can be reached, a deletion removes what its plan says: as many messages, lists,
references and queued messages, and messages on the same boards. Afterwards there is nothing to plan,
and another deletion of the identity removes nothing and leaves the state as it is. -/
theorem Reachable.deleted_as_planned {e : Engine} (h : e.Reachable) (a : IdentityId) :
    let plan := e.state.plan a
    let report := (e.deleteIdentity a).2
    let after := (e.deleteIdentity a).1
    (report.messagesRemoved = plan.messages ∧ report.listsRemoved = plan.lists ∧
      report.referencesRemoved = plan.references ∧ report.outboxDropped = plan.queued ∧
      report.boards.keys = plan.boards) ∧
      (after.state.plan a = .nothing a ∧ (after.state.plan a).isEmpty = true) ∧
      (after.deleteIdentity a).2 = .nothing a ∧
      (after.deleteIdentity a).1.state = after.state := by
  intro plan report after
  have hs := h.keyed
  have hcleared : after.state.Cleared a := hs.cleared_deleteIdentity a
  have hlists : report.listsRemoved = plan.lists := List.length_map _
  refine ⟨⟨hs.messagesRemoved_eq a, hlists, rfl, State.outboxDropped_eq e.state a,
    hs.keys_boards_eq a⟩, ⟨hcleared.plan_eq, ?_⟩, hcleared.report_eq, hcleared.state_eq⟩
  rw [hcleared.plan_eq]
  rfl

/-- The author of the root of the ring has announced it, and has queued another message for two boards.
The deletion takes away both messages, the one on two boards counted once. -/
theorem ring_deleted_as_planned :
    let a := Board.Ring.root.author
    let other : BoardName := ⟨"other", by decide⟩
    let own : Message := .newThread ⟨a, ⟨1⟩⟩ "own" "" 2 {Board.Ring.board, other}
    let reference : Announcement := ⟨Board.Ring.root.id, Board.Ring.board, 0, "", false⟩
    let e := ((((new {} .everyone 0).step (.receive Board.Ring.root none)).step
      (.receive Board.Ring.first none)).step (.queueOwn own)).step (.receiveList ⟨a, 1⟩ [reference] 0)
    e.Reachable ∧ e.state.plan a = ⟨a, 2, 1, 1, [other, Board.Ring.board], 3, 3, 1⟩ ∧
      (e.deleteIdentity a).2.messagesRemoved = 2 ∧
      (e.deleteIdentity a).2.boards.keys = [other, Board.Ring.board] ∧
      ((e.deleteIdentity a).1.deleteIdentity a).1.state = (e.deleteIdentity a).1.state := by
  intro a other own reference e
  have hreachable : e.Reachable := .step _ (.step _ (.step _ (.step _ (.new {} .everyone 0))))
  have hplan : e.state.plan a = ⟨a, 2, 1, 1, [other, Board.Ring.board], 3, 3, 1⟩ := by
    decide +kernel
  obtain ⟨⟨hmessages, -, -, -, hboards⟩, -, -, hstate⟩ := hreachable.deleted_as_planned a
  rw [hplan] at hmessages hboards
  exact ⟨hreachable, hplan, hmessages, hboards, hstate⟩

end Engine

end Noticeboard
