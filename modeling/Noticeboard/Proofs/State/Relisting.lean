import Noticeboard.Proofs.State.Restart
import Noticeboard.Proofs.State.Wanted

/-!
# Lists after a restart

A snapshot has no record of downloads. A restart makes one anew from what is stored and from what the
lists flag, so a message that counts as downloaded, is not stored and is announced by no list is lost
(`State.Lost`). A list gets the same answer before and after a restart just if it makes no lost
message wanted, and what is lost was rejected or taken back (`Engine.run_relisted`).
-/

namespace Noticeboard

namespace State

variable {s s' : State} {x : MessageId} {limits : ListLimits} {id : ListId}
  {references : List Announcement}

/-! ## Answers -/

/-- A list is accepted and not known yet. -/
structure Admits (s : State) (limits : ListLimits) (id : ListId) (references : List Announcement) :
    Prop where
  author : s.isDeleted id.author = false
  fresh : id ∉ s.lists.lists
  checked : ListIndex.check limits id references = .ok ()

/-- What a new list makes wanted: stored messages count as downloaded anyway. -/
theorem Sound.answer_of_admits (h : s.Sound) (ha : s.Admits limits id references)
    (received : Timestamp) : (s.receiveList limits id references received).2 =
      .ok ((ListIndex.named references).filter s.lists.isNew) := by
  have hlists := ListIndex.receive_of_fresh ha.fresh ha.checked received
  rw [h.receiveList_of_ok ha.author hlists, ListIndex.newlyWanted_eq]

/-- The answer to any other list depends on deletions and known lists only. -/
theorem answer_congr (hdeleted : s'.deleted = s.deleted) (hlists : s'.lists.lists = s.lists.lists)
    (h : ¬ s.Admits limits id references) (received : Timestamp) :
    (s'.receiveList limits id references received).2 =
      (s.receiveList limits id references received).2 := by
  rw [receiveList, receiveList, isDeleted, hdeleted, ← isDeleted]
  cases hauthor : s.isDeleted id.author with
  | true => rfl
  | false =>
    rw [ListIndex.receive, ListIndex.receive, hlists]
    cases hknown : s.lists.lists.contains id with
    | true => rfl
    | false =>
      cases hcheck : ListIndex.check limits id references with
      | error e => rfl
      | ok u =>
        have hfresh : id ∉ s.lists.lists := by
          rw [Std.ExtTreeMap.mem_iff_contains, hknown]
          exact Bool.false_ne_true
        exact absurd ⟨hauthor, hfresh, hcheck⟩ h

/-! ## Answers of a restored state -/

/-- A message counts as downloaded, but neither a board nor a list has a trace of it. -/
structure Lost (s : State) (x : MessageId) : Prop where
  downloaded : x ∈ s.lists.downloaded
  unstored : s.isStored x = false
  unannounced : ¬ ∃ (k : ListId) (l : MessageList), s.lists.lists[k]? = some l ∧ l.announces x = true

namespace Sound

theorem mem_downloaded_restored (h : s.Sound) (now : Timestamp) :
    x ∈ (s.restored now).lists.downloaded ↔ x ∈ s.lists.downloaded ∧ ¬ s.Lost x := by
  rw [restored_eq, restoredLists_eq, ListIndex.mem_downloaded_foldl, mem_ids_snapshot h,
    ListIndex.mem_downloaded_foldl_restore]
  constructor
  · rintro (hx | hx | ⟨l, hl, r, hr, rfl, hflag⟩)
    · exact ⟨h.mem_downloaded hx, fun hlost => by simp [hlost.unstored] at hx⟩
    · simp [ListIndex.empty] at hx
    · obtain ⟨⟨k, l⟩, hk, rfl⟩ := List.mem_map.1 hl
      have hk := Std.ExtTreeMap.mem_toList_iff_getElem?_eq_some.1 hk
      rw [h.lists.flagged k l hk r hr, ← Std.ExtTreeSet.mem_iff_contains] at hflag
      refine ⟨hflag, fun hlost => hlost.unannounced ⟨k, l, hk, ?_⟩⟩
      exact MessageList.announces_iff.2 ⟨r, hr, rfl⟩
  · rintro ⟨hx, hkept⟩
    cases hstored : s.isStored x with
    | true => exact .inl rfl
    | false =>
      have hannounced := Classical.not_not.1 fun hnone => hkept ⟨hx, hstored, hnone⟩
      obtain ⟨k, l, hl, hx'⟩ := hannounced
      obtain ⟨r, hr, rfl⟩ := MessageList.announces_iff.1 hx'
      refine .inr (.inr ⟨l, ?_, r, hr, rfl, ?_⟩)
      · exact List.mem_map.2 ⟨(k, l), Std.ExtTreeMap.mem_toList_iff_getElem?_eq_some.2 hl, rfl⟩
      · rw [h.lists.flagged k l hl r hr, ← Std.ExtTreeSet.mem_iff_contains]
        exact hx

/-- New after a restart is what was new before, and what is lost. -/
theorem isNew_restored_iff (h : s.Sound) (now : Timestamp) :
    (s.restored now).lists.isNew x = true ↔ s.lists.isNew x = true ∨ s.Lost x := by
  rw [h.lists.isNew_iff, (h.restored now).lists.isNew_iff, h.mem_downloaded_restored,
    h.lists_restored]
  constructor
  · rintro ⟨hnot, hnone⟩
    by_cases hx : x ∈ s.lists.downloaded
    · exact .inr (Classical.not_not.1 fun hkept => hnot ⟨hx, hkept⟩)
    · exact .inl ⟨hx, hnone⟩
  · rintro (⟨hx, hnone⟩ | hlost)
    · exact ⟨fun hx' => hx hx'.1, hnone⟩
    · exact ⟨fun hx' => hx'.2 hlost, hlost.unannounced⟩

/-- A restored state answers a list alike just if the list is not accepted anyway or names nothing
that is lost. -/
theorem answer_restored_iff (h : s.Sound) (now received : Timestamp) :
    ((s.restored now).receiveList limits id references received).2 =
      (s.receiveList limits id references received).2 ↔
        (s.Admits limits id references → ∀ r ∈ references, ¬ s.Lost r.message) := by
  have hdeleted : (s.restored now).deleted = s.deleted := by rw [restored_eq]
  have hlists := h.lists_restored now
  by_cases ha : s.Admits limits id references
  · have ha' : (s.restored now).Admits limits id references := by
      refine ⟨?_, hlists ▸ ha.fresh, ha.checked⟩
      rw [isDeleted, hdeleted, ← isDeleted, ha.author]
    rw [h.answer_of_admits ha, (h.restored now).answer_of_admits ha', Except.ok.injEq]
    refine Iff.trans ?_ (forall_prop_of_true ha).symm
    constructor
    · intro hsame r hr hlost
      have hnamed := ListIndex.mem_named.2 ⟨r, hr, rfl⟩
      have hwanted := List.mem_filter.2 ⟨hnamed, (h.isNew_restored_iff now).2 (.inr hlost)⟩
      rw [hsame, List.mem_filter, h.lists.isNew_iff] at hwanted
      exact hwanted.2.1 hlost.downloaded
    · intro hkept
      refine List.filter_congr fun x hx => ?_
      obtain ⟨r, hr, rfl⟩ := ListIndex.mem_named.1 hx
      rw [Bool.eq_iff_iff, h.isNew_restored_iff, or_iff_left (hkept r hr)]
  · exact iff_of_true (answer_congr hdeleted hlists ha received) fun ha' => absurd ha' ha

end Sound

/-! ## What is lost -/

/-- A message that counts as downloaded is stored. -/
def Backed (s : State) (x : MessageId) : Prop := x ∈ s.lists.downloaded → s.isStored x = true

theorem Lost.not_backed (h : s.Lost x) : ¬ s.Backed x := fun hbacked => by
  simpa [h.unstored] using hbacked h.downloaded

namespace Backed

theorem congr (h : s.Backed x) (hboards : ∀ b, s'.board b = s.board b)
    (hdownloaded : x ∈ s'.lists.downloaded → x ∈ s.lists.downloaded ∨ s.isStored x = true) :
    s'.Backed x := by
  intro hx
  have hstored := (hdownloaded hx).elim h id
  rw [isStored_iff] at hstored ⊢
  simpa only [hboards] using hstored

theorem settle (h : s.Backed x) {id : MessageId} (hid : id ≠ x) : (s.settle id).Backed x :=
  h.congr (fun _ => rfl) fun hx =>
    .inl ((ListIndex.mem_downloaded_markDownloaded.1 hx).resolve_left hid.symm)

theorem receive (h : s.Backed x) (hs : s.Sound) {limits : Limits} {m : Message}
    {announcedBy : Option IdentityId} (hm : s.isDeleted m.author = false → m.id = x →
      m.validate announcedBy limits = .ok ()) : (s.receive limits m announcedBy).1.Backed x := by
  obtain ⟨-, heq⟩ | ⟨hauthor, e, hrejected, heq⟩ | ⟨-, hvalid, boards, reports, heq, hboards⟩ :=
    receive_cases hs.named limits m announcedBy
  · rw [heq]
    exact h
  · rw [heq]
    refine h.settle fun hid => ?_
    rw [hm hauthor hid] at hrejected
    cases hrejected
  · rw [heq]
    intro hx
    rw [isStored_iff]
    simp only [mem_board_filed hs.named hboards]
    rcases ListIndex.mem_downloaded_markDownloaded.1 hx with rfl | hx
    · obtain ⟨b, hb⟩ := Message.exists_targets_of_validate hvalid
      exact ⟨b, .inr ⟨rfl, hb⟩⟩
    · obtain ⟨b, hb⟩ := isStored_iff.1 (h hx)
      exact ⟨b, .inl hb⟩

theorem receiveList (h : s.Backed x) (limits : ListLimits) (id : ListId)
    (references : List Announcement) (received : Timestamp) :
    (s.receiveList limits id references received).1.Backed x := by
  obtain ⟨e, heq⟩ | ⟨-, lists, wanted, hlists, heq⟩ :=
    receiveList_cases s limits id references received
  · rw [heq]
    exact h
  · rw [heq]
    refine h.congr (fun _ => rfl) fun hx => ?_
    rcases (ListIndex.mem_downloaded_foldl _).1 hx with hx | hx
    · exact .inr (List.mem_filter.1 hx).2
    · exact .inl (ListIndex.downloaded_receive hlists ▸ hx)

theorem deleteIdentity (h : s.Backed x) (hs : s.Sound) (identity : IdentityId) :
    (s.deleteIdentity identity).1.Backed x := by
  intro hx
  obtain ⟨hx, hauthor⟩ := ListIndex.mem_downloaded_removeAuthor.1 hx
  obtain ⟨b, hb⟩ := isStored_iff.1 (h hx)
  exact isStored_iff.2 ⟨b, (mem_board_deleteIdentity (hs.coherent b) identity).2 ⟨hauthor, hb⟩⟩

theorem queueOwn (h : s.Backed x) (hs : s.Sound) (limits : Limits) (m : Message)
    (now : Timestamp) : (s.queueOwn limits m now).1.Backed x := by
  have hqueued : State.Backed { s with outbox := s.outbox.queue m now } x := h
  exact queueOwn_keep (p := (·.Backed x)) h fun _ hvalid =>
    hqueued.receive (hs.congr (fun _ => rfl) rfl) fun _ _ => hvalid

theorem unsend (h : s.Backed x) (hs : s.Sound) {id : MessageId} (hid : id ≠ x) :
    (s.unsend id).1.Backed x := by
  refine unsend_keep (p := (·.Backed x)) h fun hx => ?_
  obtain ⟨b, hb⟩ := isStored_iff.1 (h hx)
  exact isStored_iff.2 ⟨b, (mem_board_takeDown (hs.coherent b).keyed id).2 ⟨hid.symm, hb⟩⟩

end Backed

end State

namespace Engine

variable {e : Engine} {x : MessageId}

/-- An operation rejects a message or takes it back. -/
def Drops (e : Engine) (x : MessageId) (op : Op) : Prop := e.Rejects x op ∨ op = .unsend x

theorem backed_step (hs : e.state.Sound) (h : e.state.Backed x) {op : Op} (hop : ¬ e.Drops x op) :
    (e.step op).state.Backed x := by
  cases op with
  | receive m announcedBy =>
    refine h.receive hs fun hauthor hid => ?_
    cases hvalid : m.validate announcedBy e.config.validation with
    | ok u => rfl
    | error error =>
      refine absurd (.inl ⟨hid, error, ?_⟩) hop
      change (e.state.receive e.config.validation m announcedBy).2 = _
      rw [State.receive, hauthor, hvalid]
      rfl
  | receiveList id references received => exact h.receiveList e.config.lists id references received
  | discard id => exact h.settle fun hid => hop (.inl hid)
  | deleteIdentity identity => exact h.deleteIdentity hs identity
  | subscribe viewer name =>
    exact h.congr (fun b => State.board_subscribe e.state viewer name b) .inl
  | queueOwn m => exact h.queueOwn hs e.config.validation m e.now
  | unsend id => exact h.unsend hs fun hid => hop (.inr (congrArg Op.unsend hid))
  | fail | sweep | retainMarkers | unsubscribe | markPublished | markPublishFailed | setClock =>
    exact h

/-- What counts as downloaded is stored until an operation drops it. -/
theorem exists_drops_of_steps (hs : e.state.Sound) (h : e.state.Backed x) {ops : List Op}
    (hlater : ¬ (e.steps ops).state.Backed x) :
    ∃ before op after, ops = before ++ op :: after ∧ (e.steps before).Drops x op := by
  induction ops generalizing e with
  | nil => exact absurd h hlater
  | cons op ops ih =>
    by_cases hop : e.Drops x op
    · exact ⟨[], op, ops, rfl, hop⟩
    · obtain ⟨before, op', after, rfl, hdrops⟩ := ih (sound_step hs op) (backed_step hs h hop) hlater
      exact ⟨op :: before, op', after, rfl, hdrops⟩

/-- In every run a list gets the same answer from the engine and from one restored from its snapshot,
just if it is not accepted anyway or names nothing that is lost; and a message is lost only after it
was rejected or taken back. -/
theorem run_relisted (config : EngineConfig) (trust : Trust) (now : Timestamp) (ops : List Op) :
    let e := run config trust now ops
    let restored := e.restarted config trust e.now
    (∀ id references received,
      (restored.receiveList id references received).2 = (e.receiveList id references received).2 ↔
        (e.state.Admits config.lists id references →
          ∀ r ∈ references, ¬ e.state.Lost r.message)) ∧
    ∀ x, e.state.Lost x → ∃ before op after,
      ops = before ++ op :: after ∧ (run config trust now before).Drops x op := by
  intro e restored
  have hs : e.state.Sound := sound_run config trust now ops
  refine ⟨fun id references received => ?_, fun x hlost => ?_⟩
  · have hconfig : e.config = config := config_steps _ ops
    change (restored.state.receiveList restored.config.lists id references received).2 =
      (e.state.receiveList e.config.lists id references received).2 ↔ _
    rw [state_restarted, config_restarted, hconfig]
    exact hs.answer_restored_iff e.now received
  · have hfresh : (new config trust now).state.Backed x := fun hx => by
      simp [new, State.empty, ListIndex.empty] at hx
    exact exists_drops_of_steps State.sound_empty hfresh hlost.not_backed

/-- The root of the ring is rejected, and no list announces it: it is lost. A list that announces a
reply gets the same answer after a restart. -/
theorem ring_relisted :
    let ops : List Op := [.receive { Board.Ring.root with boards := ∅ } none]
    let e := run {} .everyone 0 ops
    let restored := e.restarted {} .everyone e.now
    let references : List Announcement := [⟨Board.Ring.first.id, Board.Ring.board, 0, "", false⟩]
    (∃ before op after, ops = before ++ op :: after ∧
      (run {} .everyone 0 before).Drops Board.Ring.root.id op) ∧
    (restored.receiveList ⟨Board.Ring.first.author, 0⟩ references 0).2 =
      (e.receiveList ⟨Board.Ring.first.author, 0⟩ references 0).2 := by
  intro ops e restored references
  have hlists : e.state.lists.lists = ∅ := by decide +kernel
  have hlost : e.state.Lost Board.Ring.root.id :=
    ⟨by decide +kernel, by decide +kernel, by simp [hlists]⟩
  have hkept : ¬ e.state.Lost Board.Ring.first.id := fun h =>
    absurd h.downloaded (by decide +kernel)
  refine ⟨(run_relisted {} .everyone 0 ops).2 Board.Ring.root.id hlost, ?_⟩
  exact ((run_relisted {} .everyone 0 ops).1 ⟨Board.Ring.first.author, 0⟩ references 0).2
    fun _ => by simpa [references] using hkept

/-- A restart makes wanted what was rejected before: the root of the ring is rejected, and then a list
announces it. -/
theorem ring_wanted_after_restart :
    let e := run {} .everyone 0 [.receive { Board.Ring.root with boards := ∅ } none]
    let restored := e.restarted {} .everyone e.now
    let id : ListId := ⟨Board.Ring.root.author, 0⟩
    let references : List Announcement := [⟨Board.Ring.root.id, Board.Ring.board, 0, "", false⟩]
    (e.receiveList id references 0).2 = .ok [] ∧
      (restored.receiveList id references 0).2 = .ok [Board.Ring.root.id] := by
  decide +kernel

end Engine

end Noticeboard
