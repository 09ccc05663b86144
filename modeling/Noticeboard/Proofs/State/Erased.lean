import Noticeboard.Proofs.Outbox
import Noticeboard.Proofs.State.Restart
import Noticeboard.Proofs.State.Wanted

/-!
# Deleted for good

Once an identity is deleted, a state has nothing by it and accepts nothing by it (`State.Erased`).
Replies by others go on naming its messages as parents and threads, but every way for one of them to
come back is closed: arrivals, lists and own messages are refused for their author, and a restart
brings back no more than the snapshot has (`Engine.stages_forget`).
-/

namespace Noticeboard

namespace State

variable {s s' : State} {a : IdentityId} {m : Message} {x : MessageId} {k : ListId}

/-- Nothing by an identity is left, and the identity counts as deleted. -/
structure Erased (s : State) (a : IdentityId) : Prop where
  deleted : s.isDeleted a = true
  boards : ∀ b, ∀ x ∈ (s.board b).messages, x.author ≠ a
  lists : ∀ k ∈ s.lists.lists, k.author ≠ a
  outbox : ∀ x ∈ s.outbox, x.author ≠ a

/-- A deletion leaves nothing by the identity. -/
theorem Sound.erased_deleteIdentity (h : s.Sound) (a : IdentityId) :
    (s.deleteIdentity a).1.Erased a := by
  refine ⟨(isDeleted_deleteIdentity s a a).2 (.inl rfl), fun b x hx => ?_, fun k hk => ?_,
    fun x hx => ?_⟩
  · exact ((mem_board_deleteIdentity (h.coherent b) a).1 hx).1
  · exact (ListIndex.mem_lists_removeAuthor.1 hk).1
  · have hx : x ∈ s.outbox.removeAuthor a := hx
    simpa using (Std.ExtTreeMap.mem_filter.1 hx).2

namespace Erased

/-- What is new is by others. -/
theorem extend (h : s.Erased a) (hdeleted : s.isDeleted a = true → s'.isDeleted a = true)
    (hboards : ∀ b, ∀ x ∈ (s'.board b).messages, x ∈ (s.board b).messages ∨ x.author ≠ a)
    (hlists : ∀ k ∈ s'.lists.lists, k ∈ s.lists.lists ∨ k.author ≠ a)
    (houtbox : ∀ x ∈ s'.outbox, x ∈ s.outbox ∨ x.author ≠ a) : s'.Erased a :=
  ⟨hdeleted h.deleted, fun b x hx => (hboards b x hx).elim (h.boards b x) id,
    fun k hk => (hlists k hk).elim (h.lists k) id, fun x hx => (houtbox x hx).elim (h.outbox x) id⟩

theorem author_ne (h : s.Erased a) {author : IdentityId} (hauthor : s.isDeleted author = false) :
    author ≠ a := by
  rintro rfl
  simp [h.deleted] at hauthor

theorem settle (h : s.Erased a) (id : MessageId) : (s.settle id).Erased a :=
  h.extend (fun hd => hd) (fun _ _ => .inl) (fun _ hk => .inl (ListIndex.mem_lists_markDownloaded.1 hk))
    fun _ => .inl

theorem receive (h : s.Erased a) (hs : s.Sound) (limits : Limits) (m : Message)
    (announcedBy : Option IdentityId) : (s.receive limits m announcedBy).1.Erased a := by
  obtain ⟨-, heq⟩ | ⟨-, e, -, heq⟩ | ⟨hauthor, -, boards, reports, heq, hboards⟩ :=
    receive_cases hs.named limits m announcedBy
  · rw [heq]
    exact h
  · rw [heq]
    exact h.settle m.id
  · rw [heq]
    refine h.extend (fun hd => hd) (fun b x hx => ?_) (fun k hk => ?_) fun _ => .inl
    · refine ((mem_board_filed hs.named hboards).1 hx).imp_right ?_
      rintro ⟨rfl, -⟩
      exact h.author_ne hauthor
    · exact .inl (ListIndex.mem_lists_markDownloaded.1 hk)

theorem receiveList (h : s.Erased a) (limits : ListLimits) (id : ListId)
    (references : List Announcement) (received : Timestamp) :
    (s.receiveList limits id references received).1.Erased a := by
  obtain ⟨e, heq⟩ | ⟨hauthor, lists, wanted, hlists, heq⟩ :=
    receiveList_cases s limits id references received
  · rw [heq]
    exact h
  · rw [heq]
    refine h.extend (fun hd => hd) (fun _ _ => .inl) (fun k hk => ?_) fun _ => .inl
    refine (ListIndex.mem_lists_receive hlists ((ListIndex.mem_lists_foldl _).1 hk)).imp_right ?_
    rintro rfl
    exact h.author_ne hauthor

theorem deleteIdentity (h : s.Erased a) (hs : s.Sound) (identity : IdentityId) :
    (s.deleteIdentity identity).1.Erased a := by
  refine h.extend (fun hd => (isDeleted_deleteIdentity s identity a).2 (.inr hd))
    (fun b x hx => .inl ?_) (fun k hk => .inl ?_) fun x hx => .inl ?_
  · exact ((mem_board_deleteIdentity (hs.coherent b) identity).1 hx).2
  · exact (ListIndex.mem_lists_removeAuthor.1 hk).2
  · have hx : x ∈ s.outbox.removeAuthor identity := hx
    exact Std.ExtTreeMap.mem_of_mem_filter hx

theorem subscribe (h : s.Erased a) (viewer : IdentityId) (name : BoardName) :
    (s.subscribe viewer name).1.Erased a :=
  h.extend (fun hd => hd) (fun b _ hx => .inl (board_subscribe s viewer name b ▸ hx))
    (fun _ => .inl) fun _ => .inl

theorem queueOwn (h : s.Erased a) (hs : s.Sound) (limits : Limits) (m : Message)
    (now : Timestamp) : (s.queueOwn limits m now).1.Erased a := by
  refine queueOwn_keep (p := (·.Erased a)) h fun hauthor _ => ?_
  have hqueued : State.Erased { s with outbox := s.outbox.queue m now } a := by
    refine h.extend (fun hd => hd) (fun _ _ => .inl) (fun _ => .inl) fun x hx => ?_
    have hx : x ∈ s.outbox.queue m now := hx
    rw [Outbox.queue, Std.ExtTreeMap.mem_insertIfNew, Std.LawfulEqOrd.compare_eq_iff_eq] at hx
    refine hx.symm.imp_right ?_
    rintro rfl
    exact h.author_ne hauthor
  exact hqueued.receive (hs.congr (fun _ => rfl) rfl) limits m (some m.author)

theorem unsend (h : s.Erased a) (hs : s.Sound) (id : MessageId) : (s.unsend id).1.Erased a := by
  refine unsend_keep (p := (·.Erased a)) h ?_
  refine h.extend (fun hd => hd) (fun b x hx => .inl ?_) (fun _ => .inl) fun x hx => .inl ?_
  · exact ((mem_board_takeDown (hs.coherent b).keyed id).1 hx).2
  · exact Std.ExtTreeMap.mem_of_mem_erase hx

theorem setOutbox (h : s.Erased a) {outbox : Outbox} (houtbox : ∀ x ∈ outbox, x ∈ s.outbox) :
    State.Erased { s with outbox } a :=
  ⟨h.deleted, h.boards, h.lists, fun x hx => h.outbox x (houtbox x hx)⟩

theorem restored (h : s.Erased a) (hs : s.Sound) (now : Timestamp) : (s.restored now).Erased a := by
  have heq := restored_eq s now
  refine h.extend (fun hd => ?_) (fun b x hx => .inr ?_) (fun k hk => .inl ?_) fun x hx => .inl ?_
  · rwa [isDeleted, heq]
  · have hstored := isStored_iff.2 ⟨b, hx⟩
    rw [hs.isStored_restored now] at hstored
    obtain ⟨b', hb'⟩ := isStored_iff.1 hstored
    exact h.boards b' x hb'
  · rwa [hs.lists_restored now] at hk
  · rwa [heq] at hx

theorem author_of_mem_listsToFetch (h : s.Erased a) {limits : ListLimits} {now : Timestamp}
    (hk : k ∈ s.listsToFetch limits now) : k.author ≠ a := by
  rw [listsToFetch, List.mem_filter, List.mem_flatMap] at hk
  obtain ⟨⟨author, hauthor, hk⟩, -⟩ := hk
  obtain ⟨edition, -, rfl⟩ := List.mem_map.1 hk
  rw [Std.ExtTreeSet.mem_toList, listAuthors, mem_ofList, List.mem_map] at hauthor
  obtain ⟨l, hl, rfl⟩ := hauthor
  exact h.lists l (Std.ExtTreeMap.mem_keys.1 hl)

end Erased

end State

namespace Engine

variable {e : Engine} {a : IdentityId}

theorem erased_step (hs : e.state.Sound) (h : e.state.Erased a) (op : Op) :
    (e.step op).state.Erased a := by
  cases op with
  | receive m announcedBy => exact h.receive hs e.config.validation m announcedBy
  | receiveList id references received => exact h.receiveList e.config.lists id references received
  | discard id => exact h.settle id
  | deleteIdentity identity => exact h.deleteIdentity hs identity
  | subscribe viewer name => exact h.subscribe viewer name
  | queueOwn m => exact h.queueOwn hs e.config.validation m e.now
  | unsend id => exact h.unsend hs id
  | markPublished id location =>
    exact h.setOutbox fun _ => (Outbox.mem_markPublished location e.now).1
  | markPublishFailed id error => exact h.setOutbox fun _ => (Outbox.mem_markFailed error).1
  | fail | sweep | retainMarkers | unsubscribe | setClock =>
    exact ⟨h.deleted, h.boards, h.lists, h.outbox⟩

theorem erased_steps (hs : e.state.Sound) (h : e.state.Erased a) (ops : List Op) :
    (e.steps ops).state.Erased a := by
  induction ops generalizing e with
  | nil => exact h
  | cons op ops ih => exact ih (sound_step hs op) (erased_step hs h op)

/-- Operations that delete an identity at some time leave nothing by it. -/
theorem erased_of_mem_steps (hs : e.state.Sound) {ops : List Op}
    (hmem : Op.deleteIdentity a ∈ ops) : (e.steps ops).state.Erased a := by
  obtain ⟨earlier, later, rfl⟩ := List.append_of_mem hmem
  have hsound := sound_steps hs earlier
  rw [steps, List.foldl_append, List.foldl_cons]
  exact erased_steps (hsound.deleteIdentity a) (hsound.erased_deleteIdentity a) later

theorem erased_stages (hs : e.state.Sound) (h : e.state.Erased a) (l : List Stage) :
    (e.stages l).state.Erased a := by
  refine stages_keep (p := fun e => e.state.Erased a) hs h fun e x _ hs h => ?_
  cases x with
  | op op => exact erased_step hs h op
  | restart config trust now =>
    rw [stage, state_restarted]
    exact h.restored hs e.now

/-- An engine has nothing by an identity, asks for nothing by it, and refuses what comes by it without
any change. -/
structure Forgets (e : Engine) (a : IdentityId) : Prop where
  boards : ∀ b, ∀ x ∈ (e.state.board b).messages, x.author ≠ a
  lists : ∀ k ∈ e.state.lists.lists, k.author ≠ a
  outbox : ∀ x ∈ e.state.outbox, x.author ≠ a
  toFetch : ∀ x ∈ e.toFetch, x.author ≠ a
  listsToFetch : ∀ k ∈ e.listsToFetch, k.author ≠ a
  receive : ∀ m announcedBy, m.author = a →
    e.receive m announcedBy = (e, .error (.deletedIdentity a))
  receiveList : ∀ (id : ListId) references received, id.author = a →
    e.receiveList id references received = (e, .error (.deletedIdentity a))
  queueOwn : ∀ m, m.author = a → e.queueOwn m = (e, .error (.deletedIdentity a))

theorem forgets_of_erased (h : e.state.Erased a) : e.Forgets a := by
  refine ⟨h.boards, h.lists, h.outbox, fun x hx => ?_, fun k hk => ?_, fun m announcedBy hm => ?_,
    fun id references received hid => ?_, fun m hm => ?_⟩
  · rw [toFetch, State.mem_toFetch] at hx
    exact h.author_ne hx.2.1
  · exact h.author_of_mem_listsToFetch hk
  · have hrefused : e.state.receive e.config.validation m announcedBy =
        (e.state, .error (.deletedIdentity a)) := by
      rw [State.receive, hm, if_pos h.deleted]
    rw [receive, hrefused]
    rfl
  · have hrefused : e.state.receiveList e.config.lists id references received =
        (e.state, .error (.deletedIdentity a)) := by
      rw [State.receiveList, hid, if_pos h.deleted]
    rw [receiveList, hrefused]
  · have hrefused : e.state.queueOwn e.config.validation m e.now =
        (e.state, .error (.deletedIdentity a)) := by
      rw [State.queueOwn, hm, if_pos h.deleted]
    rw [queueOwn, hrefused]

/-- After an identity is deleted nothing by it comes back, whatever went before and whatever comes
after, restarts included. -/
theorem stages_forget (config : EngineConfig) (trust : Trust) (now : Timestamp)
    (before after : List Stage) (a : IdentityId) :
    ((((new config trust now).stages before).deleteIdentity a).1.stages after).Forgets a := by
  have hs := sound_stages (e := new config trust now) State.sound_empty before
  exact forgets_of_erased (erased_stages (hs.deleteIdentity a) (hs.erased_deleteIdentity a) after)

end Engine

end Noticeboard
