import Noticeboard.Proofs.Board.Vouched
import Noticeboard.Proofs.State.DeletionPlan
import Noticeboard.Routing

/-!
# Which notifications an event brings about

Notifications are made from the reports of arrivals and removals, and not from the boards. They tell of
the boards all the same (`Engine.Reachable.notifications_eq`): an event gives notice of just the boards
that it changes, each once and in the order of their names, and with it of a ghost that it fills there.

That a board is changed follows from the messages on it, since an arrival that is no duplicate and a
removal that is not empty change these. That a ghost is filled rests on the ghosts being vouched for,
which holds of every board, whatever snapshots it went through (`Engine.Reachable.honest`).
-/

namespace Noticeboard

/-! ## Every board is honest -/

namespace State

variable {s s' : State} {m : Message} {b : BoardName}

/-- The boards of a state are honest. -/
def Honest (s : State) : Prop := ∀ b, (s.board b).Honest

theorem honest_empty : empty.Honest := by
  intro b
  rw [board, empty, Std.ExtTreeMap.getElem?_empty, Option.getD_none]
  exact Board.honest_empty b

namespace Honest

theorem congr (h : s.Honest) (hboards : ∀ b, s'.board b = s.board b) : s'.Honest := fun b =>
  hboards b ▸ h b

theorem receive (h : s.Honest) (hnamed : s.Named) (limits : Limits) (m : Message)
    (announcedBy : Option IdentityId) : (s.receive limits m announcedBy).1.Honest := by
  intro b
  rw [board_receive hnamed]
  split
  · exact (h b).ingested m
  · exact h b

theorem queueOwn (h : s.Honest) (hnamed : s.Named) (limits : Limits) (m : Message)
    (now : Timestamp) : (s.queueOwn limits m now).1.Honest := by
  have hqueued : State.Honest { s with outbox := s.outbox.queue m now } := h
  exact queueOwn_keep h fun _ _ => hqueued.receive hnamed limits m (some m.author)

theorem deleteIdentity (h : s.Honest) (identity : IdentityId) :
    (s.deleteIdentity identity).1.Honest := by
  intro b
  rw [board_deleteIdentity]
  exact (h b).removeAuthor identity

theorem unsend (h : s.Honest) (id : MessageId) : (s.unsend id).1.Honest := by
  refine unsend_keep h fun b => ?_
  rw [board_takeDown]
  exact (h b).removed id false

theorem restore (h : s.Honest) (p : Snapshot) : (s.restore p).1.Honest := by
  rw [State.restore]
  split
  · exact h
  · intro b
    obtain ⟨roots, heq⟩ := rebuilt_board p b
    show ((rebuiltBoards p)[b]?.getD (.empty b)).Honest
    rw [heq]
    exact Board.honest_rebuild b p.messages roots

end Honest

end State

namespace Engine

variable {e : Engine}

theorem honest_step (h : e.state.Honest) (hnamed : e.state.Named) (op : Op) :
    (e.step op).state.Honest := by
  cases op with
  | receive m announcedBy => exact h.receive hnamed e.config.validation m announcedBy
  | receiveList id references received =>
    exact h.congr (State.board_receiveList e.state e.config.lists id references received)
  | deleteIdentity identity => exact h.deleteIdentity identity
  | subscribe viewer name => exact h.congr (State.board_subscribe e.state viewer name)
  | queueOwn m => exact h.queueOwn hnamed e.config.validation m e.now
  | unsend id => exact h.unsend id
  | fail | sweep | discard | retainMarkers | unsubscribe | markPublished | markPublishFailed
    | setClock => exact h.congr fun _ => rfl

theorem Reachable.honest (h : e.Reachable) : e.state.Honest := by
  induction h with
  | new config trust now => exact State.honest_empty
  | step op hreachable ih => exact honest_step ih hreachable.named op
  | restore p _ ih =>
    rw [(state_restore _ p).1]
    exact ih.restore p

end Engine

/-! ## Notices about one board -/

/-- The notices about a board that a message changed, and maybe filled a ghost of. -/
def Event.notices (b : BoardName) (x : MessageId) (filled : Bool) : List Event :=
  .boardUpdated b x :: if filled then [.ghostResolved b x] else []

namespace Board

variable {g g' : Board} {m : Message} {r : IngestReport} {id : MessageId}

theorem hasGhost_iff_hasGhostIn : g.hasGhost id = true ↔ ∃ k, g.HasGhostIn k id := by
  simp only [hasGhost, List.any_eq_true, trees, List.mem_map, Prod.exists, exists_eq_right,
    Std.ExtTreeMap.mem_toList_iff_getElem?_eq_some, Option.isSome_iff_exists, HasGhostIn]
  constructor
  · rintro ⟨t, ⟨k, ht⟩, gh, hgh⟩
    exact ⟨k, t, gh, ht, hgh⟩
  · rintro ⟨k, t, gh, ht, hgh⟩
    exact ⟨t, ⟨k, ht⟩, gh, hgh⟩

/-- What the report on an inserted message has that notice is given of. -/
theorem insert_outcome : (g.insert m).2.board = g.name ∧ (g.insert m).2.isDuplicate = false ∧
    (g.insert m).2.ghostResolved = (g.readied m).2 := by
  have hplaced : ((g.readied m).1.place m).2.board = g.name ∧
      ((g.readied m).1.place m).2.isDuplicate = false := by
    rw [← name_readied g m, place]
    split <;> exact ⟨rfl, rfl⟩
  exact ⟨hplaced.1, hplaced.2, rfl⟩

/-- The report on an arrival gives notice of the board unless the message was stored, and of a ghost if
there was one for it. -/
theorem Honest.notificationsOf_eq (h : g.Honest) (hr : g.ingest m = .ok (g', r)) :
    Arrival.notificationsOf m.id r =
      if m.id ∈ g.messages then [] else Event.notices g.name m.id (g.hasGhost m.id) := by
  cases htargets : m.targets g.name with
  | false => simp [ingest, htargets] at hr
  | true =>
    cases hm : g.messages[m.id]? with
    | some x =>
      have hmem : m.id ∈ g.messages := mem_iff_getElem?.2 ⟨x, hm⟩
      have hcontains : g.contains m.id = true := Std.ExtTreeMap.mem_iff_contains.1 hmem
      rw [ingest, htargets, hcontains] at hr
      cases hr
      rw [if_pos hmem]
      rfl
    | none =>
      have hnot : m.id ∉ g.messages := by simp [mem_iff_getElem?, hm]
      rw [ingest_eq_insert htargets hm] at hr
      obtain ⟨hboard, hnew, hresolved⟩ := insert_outcome (g := g) (m := m)
      have hghost : (g.readied m).2 = g.hasGhost m.id := by
        rw [Bool.eq_iff_iff, h.readied_snd_iff hm, hasGhost_iff_hasGhostIn]
      have hreport : (g.insert m).2 = r := congrArg Prod.snd (Except.ok.inj hr)
      rw [hreport] at hboard hnew hresolved
      rw [if_neg hnot, Arrival.notificationsOf, hnew, hresolved, hghost, hboard, Event.notices]
      cases g.hasGhost m.id <;> rfl

end Board

/-! ## Notices about an arrival -/

namespace State

variable {s s' : State} {m : Message} {limits : Limits} {announcedBy : Option IdentityId}
  {b name : BoardName} {names : List BoardName} {r : IngestReport} {reports : List IngestReport}

/-- Filing on a board reports what came of it there and leaves the other boards. -/
theorem fileOn_eq_ok (h : s.fileOn m name = (s', .ok r)) :
    (∃ g, (s.board name).ingest m = .ok (g, r)) ∧ ∀ b, b ≠ name → s'.board b = s.board b := by
  have hboard := board_insertIfNew s name
  rw [fileOn] at h
  dsimp only at h
  rw [hboard name] at h
  split at h
  · cases h
  · split at h
    · next g r' hr =>
      cases h
      refine ⟨⟨g, hr⟩, fun b hb => ?_⟩
      rw [← hboard b, board, board, Std.ExtTreeMap.getElem?_insert,
        if_neg fun he => hb (Std.LawfulEqOrd.eq_of_compare he).symm]
    · cases h

theorem fileOnAll_cons_eq_ok (h : s.fileOnAll m (name :: names) = (s', .ok reports)) :
    ∃ s₁ r rs, s.fileOn m name = (s₁, .ok r) ∧ s₁.fileOnAll m names = (s', .ok rs) ∧
      reports = r :: rs := by
  rw [fileOnAll] at h
  split at h
  · cases h
  · next s₁ r hr =>
    refine ⟨s₁, r, ?_⟩
    cases hrest : s₁.fileOnAll m names with
    | mk s₂ o =>
      cases o with
      | error e => simp [hrest, Except.map] at h
      | ok rs =>
        simp only [hrest, Except.map, Prod.mk.injEq, Except.ok.injEq] at h
        exact ⟨rs, hr, by rw [h.1], h.2.symm⟩

/-- The reports give notice of the boards that did not store the message. -/
theorem flatMap_notificationsOf (hnames : names.Nodup)
    (hboards : ∀ b ∈ names, (s.board b).name = b ∧ (s.board b).Honest)
    (h : s.fileOnAll m names = (s', .ok reports)) :
    reports.flatMap (Arrival.notificationsOf m.id) =
      (names.filter fun b => !(s.board b).contains m.id).flatMap fun b =>
        Event.notices b m.id ((s.board b).hasGhost m.id) := by
  induction names generalizing s reports with
  | nil =>
    cases h
    rfl
  | cons name names ih =>
    obtain ⟨hname, hnames⟩ := List.nodup_cons.1 hnames
    obtain ⟨⟨hnamed, hhonest⟩, hboards⟩ := List.forall_mem_cons.1 hboards
    obtain ⟨s₁, r, rs, hfirst, hrest, rfl⟩ := fileOnAll_cons_eq_ok h
    obtain ⟨⟨g, hr⟩, hother⟩ := fileOn_eq_ok hfirst
    have hsame (b : BoardName) (hb : b ∈ names) : s₁.board b = s.board b :=
      hother b fun he => hname (he ▸ hb)
    have hfilter : (names.filter fun b => !(s₁.board b).contains m.id) =
        names.filter fun b => !(s.board b).contains m.id :=
      List.filter_congr fun b hb => by rw [hsame b hb]
    have htail : rs.flatMap (Arrival.notificationsOf m.id) =
        (names.filter fun b => !(s.board b).contains m.id).flatMap fun b =>
          Event.notices b m.id ((s.board b).hasGhost m.id) := by
      rw [ih hnames (fun b hb => by rw [hsame b hb]; exact hboards b hb) hrest, hfilter]
      exact List.flatMap_congr fun b hb => by rw [hsame b (List.mem_of_mem_filter hb)]
    rw [List.flatMap_cons, htail, hhonest.notificationsOf_eq hr, hnamed, List.filter_cons]
    by_cases hmem : m.id ∈ (s.board name).messages
    · have hcontains : (s.board name).contains m.id = true := Std.ExtTreeMap.mem_iff_contains.1 hmem
      simp [hmem, hcontains]
    · have hcontains : (s.board name).contains m.id = false :=
        Bool.eq_false_iff.2 fun h => hmem (Std.ExtTreeMap.mem_iff_contains.2 h)
      simp [hmem, hcontains]

/-! ## The boards that change -/

/-- The boards on which two states differ, in the order of their names, and for each the first of the
messages that were put there or taken away. -/
structure Changes (s s' : State) (touched : BoardName → List MessageId) (names : List BoardName)
    (about : BoardName → MessageId) : Prop where
  ordered : names.Pairwise fun a b => compare a b = .lt
  changed : ∀ b, b ∈ names ↔ s'.boards[b]? ≠ s.boards[b]?
  first : ∀ b ∈ names, (touched b).head? = some (about b)

theorem changes_nil (hboards : ∀ b : BoardName, s'.boards[b]? = s.boards[b]?)
    (touched : BoardName → List MessageId) (about : BoardName → MessageId) :
    s.Changes s' touched [] about where
  ordered := .nil
  changed b := by simp [hboards]
  first := by simp

/-- A message that is not accepted is refused and changes no board. -/
theorem receive_of_not_accepts (hnamed : s.Named)
    (haccepts : s.accepts limits m announcedBy = false) :
    (∃ error, (s.receive limits m announcedBy).2 = .error error) ∧
      ∀ b : BoardName, (s.receive limits m announcedBy).1.boards[b]? = s.boards[b]? := by
  refine ⟨?_, fun b => by rw [boards_receive hnamed, haccepts]; simp⟩
  obtain ⟨-, heq⟩ | ⟨-, e, -, heq⟩ | ⟨hauthor, hvalid, -⟩ :=
    receive_cases hnamed limits m announcedBy
  · exact ⟨_, congrArg Prod.snd heq⟩
  · exact ⟨_, congrArg Prod.snd heq⟩
  · rw [accepts_iff.2 ⟨hauthor, hvalid⟩] at haccepts
    cases haccepts

/-- A filed message changes the boards that it targets and that do not store it. -/
theorem boards_receive_ne_iff (hnamed : s.Named)
    (haccepts : s.accepts limits m announcedBy = true) :
    (s.receive limits m announcedBy).1.boards[b]? ≠ s.boards[b]? ↔
      m.targets b = true ∧ m.id ∉ (s.board b).messages := by
  rw [boards_receive hnamed, haccepts]
  cases htargets : m.targets b with
  | false => simp
  | true =>
    simp only [and_self, if_true, true_and]
    refine not_congr ⟨fun heq => ?_, fun hmem => ?_⟩
    · have hboard : s.board b = (s.board b).ingested m := board_eq heq.symm
      rw [hboard]
      exact (Board.mem_messages_ingested (by rwa [hnamed])).2 (.inl rfl)
    · obtain ⟨x, hx⟩ := mem_iff_getElem?.1 hmem
      rw [Board.ingested_of_stored hx, mem_boards_of_stored hmem]

theorem changes_receive (hnamed : s.Named) (haccepts : s.accepts limits m announcedBy = true) :
    s.Changes (s.receive limits m announcedBy).1 (fun _ => [m.id])
      (m.boards.toList.filter fun b => !(s.board b).contains m.id) fun _ => m.id where
  ordered := Std.ExtTreeSet.ordered_toList.filter _
  changed b := by
    rw [boards_receive_ne_iff hnamed haccepts, List.mem_filter, Std.ExtTreeSet.mem_toList,
      Bool.not_eq_true', ← Bool.not_eq_true, Board.contains, ← Std.ExtTreeMap.mem_iff_contains,
      Message.targets, Std.ExtTreeSet.mem_iff_contains]
  first _ _ := rfl

/-- The notifications about a filed message. -/
theorem notifications_receive (h : s.Honest) (hnamed : s.Named)
    (haccepts : s.accepts limits m announcedBy = true) : ∃ a,
      (s.receive limits m announcedBy).2 = .ok a ∧
      a.notifications = (m.boards.toList.filter fun b => !(s.board b).contains m.id).flatMap fun b =>
        Event.notices b m.id ((s.board b).hasGhost m.id) := by
  obtain ⟨hauthor, hvalid⟩ := accepts_iff.1 haccepts
  obtain ⟨boards, reports, hfiled, -⟩ := fileOnAll_eq hnamed hauthor (nodup_toList m.boards)
    fun b hb => Std.ExtTreeSet.contains_iff_mem.2 (Std.ExtTreeSet.mem_toList.1 hb)
  refine ⟨⟨m.id, reports⟩, ?_, ?_⟩
  · rw [receive, hauthor, if_neg Bool.false_ne_true, hvalid]
    show (s.deliver m).2 = _
    rw [deliver, hfiled]
  · exact flatMap_notificationsOf (nodup_toList m.boards) (fun b _ => ⟨hnamed b, h b⟩) hfiled

/-- A deletion changes the boards with messages by the identity. -/
theorem boards_deleteIdentity_ne_iff (h : s.Keyed) {a : IdentityId} :
    (s.deleteIdentity a).1.boards[b]? ≠ s.boards[b]? ↔ (s.board b).authored a ≠ [] := by
  rw [boards_deleteIdentity, board]
  cases hg : s.boards[b]? with
  | none => simp [Board.authored, Board.empty]
  | some g =>
    have hkeyed := h.of_board hg
    rw [Option.map_some, Option.getD_some, ne_eq, Option.some.injEq]
    refine not_congr ⟨fun heq => ?_, fun hnil => (Board.removeAuthor_of_authored_nil hnil).1⟩
    rw [← heq]
    exact Board.authored_removeAuthor hkeyed a

/-- The messages reported for a board are those that the identity had there. -/
theorem getElem?_boards_report_eq (h : s.Keyed) {a : IdentityId} {r : RemovalReport}
    (hr : (s.deleteIdentity a).2.boards[b]? = some r) :
    r.removed = (s.board b).authored a ∧ (s.board b).authored a ≠ [] := by
  obtain ⟨g, hg, rfl, hne⟩ := getElem?_boards_report.1 hr
  rw [board_eq hg, ← Board.removed_removeAuthor (h.of_board hg)]
  exact ⟨rfl, hne⟩

theorem mem_boards_report (h : s.Keyed) {a : IdentityId} :
    b ∈ (s.deleteIdentity a).2.boards.keys ↔ (s.board b).authored a ≠ [] := by
  rw [Std.ExtTreeMap.mem_keys, mem_iff_getElem?]
  constructor
  · rintro ⟨r, hr⟩
    exact (getElem?_boards_report_eq h hr).2
  · intro hne
    obtain ⟨id, hid⟩ := List.exists_mem_of_ne_nil _ hne
    have hg := mem_boards_of_stored (Board.mem_authored.1 hid).1
    refine ⟨_, getElem?_boards_report.2 ⟨s.board b, hg, rfl, ?_⟩⟩
    rwa [Board.removed_removeAuthor (h.boards b)]

/-- The first message by an identity on a board. -/
def firstBy (s : State) (a : IdentityId) (b : BoardName) : MessageId :=
  ((s.board b).authored a).head?.getD default

theorem head?_authored {a : IdentityId} (hne : (s.board b).authored a ≠ []) :
    ((s.board b).authored a).head? = some (s.firstBy a b) := by
  rw [firstBy, List.head?_eq_some_head hne, Option.getD_some]

theorem changes_deleteIdentity (h : s.Keyed) (a : IdentityId) :
    s.Changes (s.deleteIdentity a).1 (fun b => (s.board b).authored a)
      (s.deleteIdentity a).2.boards.keys (s.firstBy a) where
  ordered := Std.ExtTreeMap.ordered_keys
  changed _ := (mem_boards_report h).trans (boards_deleteIdentity_ne_iff h).symm
  first _ hb := head?_authored ((mem_boards_report h).1 hb)

/-- The notifications about a deletion. -/
theorem deletionNotices_eq (h : s.Keyed) (a : IdentityId) :
    Engine.deletionNotices (s.deleteIdentity a).2 =
      (s.deleteIdentity a).2.boards.keys.flatMap fun b => Event.notices b (s.firstBy a b) false := by
  rw [Engine.deletionNotices, List.filterMap_eq_flatMap_toList,
    ← Std.ExtTreeMap.map_fst_toList_eq_keys, List.flatMap_map]
  refine List.flatMap_congr fun ⟨b, r⟩ hr => ?_
  obtain ⟨hremoved, hne⟩ :=
    getElem?_boards_report_eq h (Std.ExtTreeMap.mem_toList_iff_getElem?_eq_some.1 hr)
  simp only [hremoved, head?_authored hne]
  rfl

end State

namespace Engine

/-! ## Every event -/

variable {e : Engine}

/-- Whether an event fills a ghost on a board: a message that is accepted, targets the board, is not
stored there and stands as a ghost there. -/
def fills (e : Engine) : Event → BoardName → Bool
  | .messageReceived m announcedBy, b =>
    e.state.accepts e.config.validation m announcedBy && m.targets b &&
      !(e.state.board b).contains m.id && (e.state.board b).hasGhost m.id
  | _, _ => false

/-- The messages that an event is to put on a board or to take away from it. -/
def touched (e : Engine) : Event → BoardName → List MessageId
  | .messageReceived m _, _ => [m.id]
  | .identityDeleted a, b => (e.state.board b).authored a
  | _, _ => []

theorem apply_received (e : Engine) (m : Message) (announcedBy : Option IdentityId) :
    (e.apply (.messageReceived m announcedBy)).1.state =
        (e.state.receive e.config.validation m announcedBy).1 ∧
      (e.apply (.messageReceived m announcedBy)).2.notifications =
        match (e.state.receive e.config.validation m announcedBy).2 with
        | .ok a => a.notifications
        | .error _ => [] := by
  have hstate : (e.receive m announcedBy).1.state =
      (e.state.receive e.config.validation m announcedBy).1 := rfl
  have hresult : (e.receive m announcedBy).2 =
      (e.state.receive e.config.validation m announcedBy).2 := rfl
  rw [← hstate, ← hresult, apply]
  split <;> next hr => rw [hr]; exact ⟨rfl, rfl⟩

theorem boards_apply_list (e : Engine) (id : ListId) (references : List Announcement)
    (received : Timestamp) :
    (e.apply (.listReceived id references received)).1.state.boards = e.state.boards ∧
      (e.apply (.listReceived id references received)).2.notifications = [] := by
  have hboards : (e.receiveList id references received).1.state.boards = e.state.boards := by
    show (e.state.receiveList e.config.lists id references received).1.boards = _
    obtain ⟨error, heq⟩ | ⟨-, lists, wanted, -, heq⟩ :=
      State.receiveList_cases e.state e.config.lists id references received
    all_goals rw [heq]
  rw [← hboards, apply]
  split <;> next hr => rw [hr]; exact ⟨rfl, rfl⟩

/-- In every state that can be reached, an event gives notice of just the boards that it changes, each
once and in the order of their names: of the first message that it put there or took away, and then, if
it filled a ghost there, of that. There are no other notifications. -/
theorem Reachable.notifications_eq (h : e.Reachable) (event : Event) :
    ∃ names about, e.state.Changes (e.apply event).1.state (e.touched event) names about ∧
      (∀ b, e.fills event b = true → b ∈ names) ∧
      (e.apply event).2.notifications =
        names.flatMap fun b => Event.notices b (about b) (e.fills event b) := by
  cases event with
  | messageReceived m announcedBy =>
    obtain ⟨hstate, hnotifications⟩ := apply_received e m announcedBy
    rw [hstate, hnotifications]
    cases haccepts : e.state.accepts e.config.validation m announcedBy with
    | false =>
      obtain ⟨⟨error, herror⟩, hboards⟩ := State.receive_of_not_accepts h.named haccepts
      refine ⟨[], fun _ => m.id, State.changes_nil hboards _ _, fun b hb => ?_, ?_⟩
      · simp [fills, haccepts] at hb
      · rw [herror]
        rfl
    | true =>
      obtain ⟨a, ha, hnotices⟩ := State.notifications_receive h.honest h.named haccepts
      refine ⟨_, _, State.changes_receive h.named haccepts, fun b hb => ?_, ?_⟩
      · simp only [fills, Bool.and_eq_true] at hb
        exact List.mem_filter.2 ⟨Std.ExtTreeSet.mem_toList.2 hb.1.1.2, hb.1.2⟩
      · rw [ha]
        refine hnotices.trans (List.flatMap_congr fun b hb => ?_)
        obtain ⟨hb, hnew⟩ := List.mem_filter.1 hb
        have htargets : m.targets b = true := Std.ExtTreeSet.mem_toList.1 hb
        rw [fills, haccepts, htargets, hnew, Bool.true_and, Bool.true_and, Bool.true_and]
  | identityDeleted a =>
    exact ⟨_, _, State.changes_deleteIdentity h.keyed a, fun _ hb => absurd hb Bool.false_ne_true,
      State.deletionNotices_eq h.keyed a⟩
  | listReceived id references received =>
    obtain ⟨hboards, hnotices⟩ := boards_apply_list e id references received
    refine ⟨[], default, State.changes_nil (fun b => ?_) _ _, fun _ hb => ?_, hnotices⟩
    · rw [hboards]
    · cases hb
  | messageFetchFailed | listFetchFailed | boardUpdated | ghostResolved =>
    refine ⟨[], default, State.changes_nil (fun b => ?_) _ _, fun _ hb => ?_, rfl⟩
    · rfl
    · cases hb

/-- The second reply of the ring arrives for two boards, and on one of them the first reply waits for it
under a ghost. -/
theorem ring_notifications :
    let other : BoardName := ⟨"other", by decide⟩
    let second : Message := { Board.Ring.second with boards := {Board.Ring.board, other} }
    let e := (new {} .everyone 0).step (.receive Board.Ring.first none)
    let after := e.apply (.messageReceived second none)
    e.Reachable ∧
      after.1.state.boards[Board.Ring.board]? ≠ e.state.boards[Board.Ring.board]? ∧
      after.2.notifications = [.boardUpdated other second.id, .boardUpdated Board.Ring.board second.id,
        .ghostResolved Board.Ring.board second.id] := by
  intro other second e after
  have hreachable : e.Reachable := .step _ (.new {} .everyone 0)
  have hfills : e.fills (.messageReceived second none) Board.Ring.board = true := by
    decide +kernel
  obtain ⟨names, about, hchanges, hfilled, -⟩ :=
    hreachable.notifications_eq (.messageReceived second none)
  exact ⟨hreachable, (hchanges.changed _).1 (hfilled _ hfills), by decide +kernel⟩

/-- If the second reply arrives for another board only, it leaves its ghost on the board of the ring
unresolved, and there is no word of it. -/
theorem ring_ghost_left :
    let other : BoardName := ⟨"other", by decide⟩
    let second : Message := { Board.Ring.second with boards := {other} }
    let e := (new {} .everyone 0).step (.receive Board.Ring.first none)
    let after := e.apply (.messageReceived second none)
    e.Reachable ∧ e.state.accepts e.config.validation second none = true ∧
      (e.state.board Board.Ring.board).contains second.id = false ∧
      (e.state.board Board.Ring.board).hasGhost second.id = true ∧
      .ghostResolved Board.Ring.board second.id ∉ after.2.notifications := by
  intro other second e after
  refine ⟨.step _ (.new {} .everyone 0), ?_⟩
  decide +kernel

end Engine

end Noticeboard
