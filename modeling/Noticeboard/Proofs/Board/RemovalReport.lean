import Noticeboard.Proofs.Board.DeletedRoots
import Noticeboard.Proofs.Board.Ghosts
import Noticeboard.Proofs.Board.Slots

/-!
# What a removal reports

The report of a removal `Accounts` for it: it names what was taken away, the ghosts that stand for it,
the roots that came to be deleted and the threads that went. One removal is accounted for by its own
report (`Coherent.accounts_removeStored`) and two by both reports together (`Accounts.append`), hence
so is any number of them.

The reports of several removals together say too much: a ghost that one removal leaves may vanish with
the next one. Cut down to what holds in the end they are exact (`Coherent.describes_removeAuthor`).
-/

namespace Noticeboard

namespace Board

variable {g g' g'' : Board} {r r' : RemovalReport} {m : Message} {id k x : MessageId}
  {ids : List MessageId} {tombstone : Bool}

namespace Coherent

/-- Where messages only leave, new ghosts stand for messages that left. -/
theorem mem_ghostIds_of_sub (h : g.Coherent) (h' : g'.Coherent)
    (hsub : ∀ (q : MessageId) (m : Message), g'.messages[q]? = some m → g.messages[q]? = some m)
    (hnot : x ∉ g.messages) (hx : x ∈ g'.ghostIds) : x ∈ g.ghostIds := by
  obtain ⟨k, hne, -, id, m, hm, hthread, hparent⟩ := h'.mem_ghostIds.1 hx
  exact h.mem_ghostIds.2 ⟨k, hne, hnot, id, m, hsub id m hm, hthread, hparent⟩

/-- Where messages only leave, there is no new thread. -/
theorem mem_threads_of_sub (h : g.Coherent) (h' : g'.Coherent)
    (hsub : ∀ (q : MessageId) (m : Message), g'.messages[q]? = some m → g.messages[q]? = some m)
    (hk : k ∈ g'.threads) : k ∈ g.threads := by
  obtain ⟨id, m, hm, hkey⟩ := h'.mem_threads.1 hk
  exact h.mem_threads.2 ⟨id, m, hsub id m hm, hkey⟩

theorem hasSlot_of_mem_ghostIds (h : g.Coherent) (hx : x ∈ g.ghostIds) : g.HasSlot x := by
  obtain ⟨k, hmisses⟩ := h.mem_ghostIds.1 hx
  obtain ⟨t, gh, ht, hgh⟩ := h.exists_ghost?_iff.2 hmisses
  exact ⟨k, t, ht, mem_iff_getElem?.2 ⟨_, ThreadTree.ghost?_eq_some_iff.1 hgh⟩⟩

end Coherent

/-! ## Accounts -/

/-- What a report owes to the boards before and after a removal. It may name more ghosts and deleted
roots than there are in the end. -/
structure Accounts (g g' : Board) (r : RemovalReport) : Prop where
  before : g.Coherent
  after : g'.Coherent
  messages : ∀ q : MessageId, g'.messages[q]? = if q ∈ r.removed then none else g.messages[q]?
  /-- Only what was taken away leaves a ghost. -/
  removed_of_ghostsLeft : ∀ x ∈ r.ghostsLeft, x ∈ r.removed
  ghostsLeft_of_removed : ∀ x ∈ r.removed, x ∈ g'.ghostIds → x ∈ r.ghostsLeft
  /-- Only a stored root comes to be deleted. -/
  starts_of_deletedRoots : ∀ k ∈ r.deletedRoots, g.Starts k
  deletedRoots : ∀ k ∈ g'.deletedRoots, k ∈ g.deletedRoots ∨ k ∈ r.deletedRoots
  threads_of_threadsRemoved : ∀ k ∈ r.threadsRemoved, k ∈ g.threads
  threadsRemoved : ∀ k ∈ g.threads, k ∈ g'.threads ∨ k ∈ r.threadsRemoved

namespace Accounts

theorem refl (h : g.Coherent) : Accounts g g {} where
  before := h
  after := h
  messages q := by simp
  removed_of_ghostsLeft x hx := absurd hx Std.ExtTreeSet.not_mem_empty
  ghostsLeft_of_removed x hx := by cases hx
  starts_of_deletedRoots k hk := absurd hk Std.ExtTreeSet.not_mem_empty
  deletedRoots k hk := .inl hk
  threads_of_threadsRemoved k hk := absurd hk Std.ExtTreeSet.not_mem_empty
  threadsRemoved k hk := .inl hk

theorem sub (h : Accounts g g' r) (q : MessageId) (m : Message) (hm : g'.messages[q]? = some m) :
    g.messages[q]? = some m := by
  rw [h.messages] at hm
  split at hm
  · cases hm
  · exact hm

theorem not_mem_of_removed (h : Accounts g g' r) (hx : x ∈ r.removed) : x ∉ g'.messages := by
  rw [Std.ExtTreeMap.mem_iff_isSome_getElem?, h.messages, if_pos hx]
  exact Bool.false_ne_true

theorem append (h : Accounts g g' r) (h' : Accounts g' g'' r') :
    Accounts g g'' (r.append r') where
  before := h.before
  after := h'.after
  messages q := by
    rw [h'.messages, h.messages]
    by_cases hq : q ∈ r.removed <;> by_cases hq' : q ∈ r'.removed <;>
      simp [RemovalReport.append, hq, hq']
  removed_of_ghostsLeft x hx := by
    rcases Std.ExtTreeSet.mem_union_iff.1 hx with hx | hx
    · exact List.mem_append_left _ (h.removed_of_ghostsLeft x hx)
    · exact List.mem_append_right _ (h'.removed_of_ghostsLeft x hx)
  ghostsLeft_of_removed x hx hghost := by
    refine Std.ExtTreeSet.mem_union_iff.2 ?_
    rcases List.mem_append.1 hx with hx | hx
    · -- What was away before the second step stood as a ghost then.
      have hbetween := h.after.mem_ghostIds_of_sub h'.after h'.sub (h.not_mem_of_removed hx) hghost
      exact .inl (h.ghostsLeft_of_removed x hx hbetween)
    · exact .inr (h'.ghostsLeft_of_removed x hx hghost)
  starts_of_deletedRoots k hk := by
    rcases Std.ExtTreeSet.mem_union_iff.1 hk with hk | hk
    · exact h.starts_of_deletedRoots k hk
    · obtain ⟨m, hm, hthread⟩ := h'.starts_of_deletedRoots k hk
      exact ⟨m, h.sub k m hm, hthread⟩
  deletedRoots k hk := by
    rcases h'.deletedRoots k hk with hk | hk
    · exact (h.deletedRoots k hk).imp_right fun hk => Std.ExtTreeSet.mem_union_iff.2 (.inl hk)
    · exact .inr (Std.ExtTreeSet.mem_union_iff.2 (.inr hk))
  threads_of_threadsRemoved k hk := by
    rcases Std.ExtTreeSet.mem_union_iff.1 hk with hk | hk
    · exact h.threads_of_threadsRemoved k hk
    · exact h.before.mem_threads_of_sub h.after h.sub (h'.threads_of_threadsRemoved k hk)
  threadsRemoved k hk := by
    rcases h.threadsRemoved k hk with hk | hk
    · exact (h'.threadsRemoved k hk).imp_right fun hk => Std.ExtTreeSet.mem_union_iff.2 (.inr hk)
    · exact .inr (Std.ExtTreeSet.mem_union_iff.2 (.inl hk))

end Accounts

/-! ## One removal -/

/-- The board that `m` has left, but for the place that it had. -/
def vacated (g : Board) (m : Message) : Board :=
  let g := if m.isThread then g else (g.detach m.id).1
  let g := { g with messages := g.messages.erase m.id, inconsistent := g.inconsistent.erase m.id }
  g.unnote m

/-- Whether the root that leaves counts as deleted from then on. -/
def deletesRoot (g : Board) (m : Message) (tombstone : Bool) : Bool :=
  ((g.vacated m).clearPlace m tombstone).2

theorem mem_deletedRoots_cleared_iff : k ∈ (g.cleared m tombstone).deletedRoots ↔
    k ∈ g.deletedRoots ∨ (g.deletesRoot m tombstone = true ∧ k = m.id) := by
  have hvacated : (g.vacated m).deletedRoots = g.deletedRoots := by
    rw [vacated, unnote_eq]
    exact (regrown_taken g m).deletedRoots
  rw [← hvacated]
  exact mem_deletedRoots_clearPlace (g.vacated m) m tombstone

theorem thread_of_deletesRoot (h : g.deletesRoot m tombstone = true) : m.thread = none := by
  rw [deletesRoot, clearPlace] at h
  split at h
  · assumption
  · cases h

/-- The ghosts made for replies to the message that leaves. -/
def ghostsMade (g : Board) (m : Message) (tombstone : Bool) : List MessageId :=
  ((g.cleared m tombstone).relocateAll ((g.cleared m tombstone).waitingOn m.id)).2

theorem removeStored_snd (g : Board) (m : Message) (tombstone : Bool) :
    (g.removeStored m tombstone).2 =
      let abandoned := (g.rehung m tombstone).isAbandoned (treeKey m)
      { removed := [m.id]
        ghostsLeft := .ofList (g.ghostsMade m tombstone)
        deletedRoots := if g.deletesRoot m tombstone && !abandoned then {treeKey m} else ∅
        threadsRemoved := if abandoned then {treeKey m} else ∅
        ghostsVanished := g.ghostIds \ (g.removeStored m tombstone).1.ghostIds } := by
  rw [rehung, ← elim_relocate]
  rfl

theorem mem_deletedRoots_reported : k ∈ (g.removeStored m tombstone).2.deletedRoots ↔
    (g.deletesRoot m tombstone = true ∧
      ¬ (g.rehung m tombstone).isAbandoned (treeKey m) = true) ∧ k = treeKey m := by
  rw [removeStored_snd]
  refine mem_ite_singleton.trans (and_congr_left fun _ => ?_)
  rw [Bool.and_eq_true, Bool.not_eq_true', Bool.not_eq_true]

theorem mem_threadsRemoved_reported : k ∈ (g.removeStored m tombstone).2.threadsRemoved ↔
    (g.rehung m tombstone).isAbandoned (treeKey m) = true ∧ k = treeKey m := by
  rw [removeStored_snd]
  exact mem_ite_singleton

namespace Coherent

/-- Nothing is left of a message that was cleared away. -/
theorem not_hasSlot_cleared (h : g.Coherent) (hm : g.messages[m.id]? = some m) :
    ¬ (g.cleared m tombstone).HasSlot m.id := by
  rintro ⟨k, t, ht, hslot⟩
  have hplanted := h.planted_cleared hm tombstone
  obtain ⟨r | gh, hslot⟩ := mem_iff_getElem?.1 hslot
  · have hbare := hplanted.bare k t ht m.id
    rw [ThreadTree.bare?_of_reply hslot, replyIn?_erase (messages_cleared g m tombstone),
      if_pos rfl] at hbare
    cases hbare
  · -- A ghost would have a child that hangs there, but all of these are loose.
    obtain ⟨⟨c, hc, -⟩, -⟩ := (hplanted.knit k t ht).dated m.id gh hslot
    obtain ⟨hfast, hlink⟩ := ((hplanted.knit k t ht).mem_children m.id _ hslot c).1 hc
    rw [hplanted.linkOf? ht] at hlink
    obtain ⟨-, -, hhome⟩ := Option.map_eq_some_iff.1 hlink
    exact hfast hhome

/-- Ghosts are made for nothing but the message that leaves. -/
theorem eq_of_mem_ghostsMade (h : g.Coherent) (hx : x ∈ g.ghostsMade m tombstone) : x = m.id := by
  obtain ⟨c, hc, y, hy, hparent⟩ := exists_parent_of_mem_relocateAll hx
  obtain ⟨⟨z, hz, -, hnames⟩, -⟩ := h.mem_waiting_cleared.1 hc
  rw [messages_cleared, Std.ExtTreeMap.getElem?_erase] at hy
  split at hy
  · cases hy
  · rw [hz] at hy
    cases hy
    exact Option.some.inj (hparent.symm.trans hnames)

/-- If a slot for the message that leaves is there in the end, a ghost was made for it. -/
theorem mem_ghostsMade (h : g.Coherent) (hm : g.messages[m.id]? = some m)
    (hslot : (g.rehung m tombstone).HasSlot m.id) : m.id ∈ g.ghostsMade m tombstone := by
  rcases hasSlot_relocateAll hslot with hslot | hmade
  · exact (hasSlot_relocateAll hslot).resolve_left (h.not_hasSlot_cleared hm)
  · -- The released reply does not name the message as its parent.
    obtain ⟨b, hb, y, hy, hparent⟩ := exists_parent_of_mem_relocateAll hmade
    have hreleased := (Option.filter_eq_some_iff.1 (Option.mem_toList.1 hb)).2
    rw [(regrown_relocateAll _ _).messages, messages_cleared, Std.ExtTreeMap.getElem?_erase] at hy
    split at hy
    · cases hy
    · simp [hy, hparent] at hreleased

theorem accounts_removeStored (h : g.Coherent) (hm : g.messages[m.id]? = some m)
    (tombstone : Bool) :
    Accounts g (g.removeStored m tombstone).1 (g.removeStored m tombstone).2 := by
  have hgrown := regrown_cleared g m tombstone
  have hafter := h.removeStored hm tombstone
  have hremoved : (g.removeStored m tombstone).2.removed = [m.id] := rfl
  constructor
  case before => exact h
  case after => exact hafter
  case messages =>
    intro q
    simp only [messages_removeStored, Std.ExtTreeMap.getElem?_erase, hremoved, List.mem_singleton,
      Std.LawfulEqOrd.compare_eq_iff_eq, @eq_comm _ m.id]
  case removed_of_ghostsLeft =>
    intro x hx
    rw [hremoved]
    exact List.mem_singleton.2 (h.eq_of_mem_ghostsMade (mem_ofList.1 hx))
  case ghostsLeft_of_removed =>
    intro x hx hghost
    obtain rfl := List.mem_singleton.1 (hremoved ▸ hx)
    refine mem_ofList.2 (h.mem_ghostsMade hm ?_)
    have hslot := hafter.hasSlot_of_mem_ghostIds hghost
    rw [removeStored_fst] at hslot
    split at hslot
    · exact hasSlot_dropTree hslot
    · exact hslot
  case starts_of_deletedRoots =>
    intro k hk
    obtain ⟨⟨hdeletes, -⟩, rfl⟩ := mem_deletedRoots_reported.1 hk
    have hthread := thread_of_deletesRoot hdeletes
    rw [treeKey, hthread, Option.getD_none]
    exact ⟨m, hm, hthread⟩
  case deletedRoots =>
    intro k hk
    rw [mem_deletedRoots_reported]
    have hrehung {k : MessageId} (hk : k ∈ (g.rehung m tombstone).deletedRoots) :
        k ∈ g.deletedRoots ∨ (g.deletesRoot m tombstone = true ∧ k = treeKey m) := by
      rw [hgrown.deletedRoots, mem_deletedRoots_cleared_iff] at hk
      refine hk.imp_right ?_
      rintro ⟨hdeletes, rfl⟩
      rw [treeKey, thread_of_deletesRoot hdeletes]
      exact ⟨hdeletes, rfl⟩
    rw [removeStored_fst] at hk
    split at hk
    · next habandoned =>
      obtain ⟨hne, hk⟩ := Std.ExtTreeSet.mem_erase.1 hk
      refine (hrehung hk).imp_right fun hkey => absurd ?_ hne
      exact Std.LawfulEqOrd.compare_eq_iff_eq.2 hkey.2.symm
    · next hkept =>
      exact (hrehung hk).imp_right fun hkey => ⟨⟨hkey.1, hkept⟩, hkey.2⟩
  case threads_of_threadsRemoved =>
    intro k hk
    obtain ⟨-, rfl⟩ := mem_threadsRemoved_reported.1 hk
    exact h.mem_threads.2 ⟨m.id, m, hm, rfl⟩
  case threadsRemoved =>
    intro k hk
    rw [mem_threadsRemoved_reported]
    have hrehung : k ∈ (g.rehung m tombstone).threads := by
      rwa [hgrown.mem_threads, mem_threads_cleared]
    rw [removeStored_fst]
    split
    · next habandoned =>
      by_cases hkey : treeKey m = k
      · exact .inr ⟨habandoned, hkey.symm⟩
      · refine .inl (Std.ExtTreeMap.mem_erase.2 ⟨?_, hrehung⟩)
        rwa [ne_eq, Std.LawfulEqOrd.compare_eq_iff_eq]
    · exact .inl hrehung

end Coherent

/-! ## Several removals -/

/-- One more removal, with its report behind the others. -/
def removeNext (r : Board × RemovalReport) (id : MessageId) : Board × RemovalReport :=
  match r.1.remove? id true with
  | some (g, report) => (g, r.2.append report)
  | none => r

theorem removeAll_eq_foldl (g : Board) (ids : List MessageId) :
    g.removeAll ids = ids.foldl removeNext (g, {}) := rfl

theorem removeNext_of_stored {r : Board × RemovalReport} (hm : r.1.messages[id]? = some m) :
    removeNext r id =
      ((r.1.removeStored m true).1, r.2.append (r.1.removeStored m true).2) := by
  rw [removeNext, remove?, hm]
  rfl

/-- Each removal of a stored message is reported. -/
theorem removed_foldl_removeNext {r : Board × RemovalReport} (h : Keyed r.1.messages)
    (hids : ids.Nodup) (hstored : ∀ id ∈ ids, id ∈ r.1.messages) :
    (ids.foldl removeNext r).2.removed = r.2.removed ++ ids := by
  induction ids generalizing r with
  | nil => exact (List.append_nil _).symm
  | cons id ids ih =>
    obtain ⟨hnot, hrest⟩ := List.nodup_cons.1 hids
    obtain ⟨m, hm⟩ := mem_iff_getElem?.1 (hstored id List.mem_cons_self)
    obtain rfl := h id m hm
    have hnext := removeNext_of_stored hm
    have hmessages : (removeNext r m.id).1.messages = r.1.messages.erase m.id := by
      rw [hnext, messages_removeStored]
    have hleft : ∀ q ∈ ids, q ∈ (removeNext r m.id).1.messages := by
      intro q hq
      rw [hmessages, Std.ExtTreeMap.mem_erase, ne_eq, Std.LawfulEqOrd.compare_eq_iff_eq]
      exact ⟨fun he => hnot (he ▸ hq), hstored q (List.mem_cons_of_mem _ hq)⟩
    have hremoved : (removeNext r m.id).2.removed = r.2.removed ++ [m.id] := by
      rw [hnext]
      rfl
    rw [List.foldl_cons, ih (hmessages ▸ h.erase m.id) hrest hleft, hremoved, List.append_assoc,
      List.singleton_append]

/-- The removal of an author's messages reports each of them. -/
theorem removed_removeAuthor (h : Keyed g.messages) (author : IdentityId) :
    (g.removeAuthor author).2.removed = g.authored author :=
  removed_foldl_removeNext h ((nodup_keys _).filter _) fun _ hid => (mem_authored.1 hid).1

/-- Removals are accounted for by their reports together. -/
theorem Accounts.foldl_removeNext {r : Board × RemovalReport} (h : Accounts g r.1 r.2)
    (ids : List MessageId) : Accounts g (ids.foldl removeNext r).1 (ids.foldl removeNext r).2 := by
  induction ids generalizing r with
  | nil => exact h
  | cons id ids ih =>
    refine ih ?_
    cases hm : r.1.messages[id]? with
    | none =>
      rw [removeNext, remove?, hm]
      exact h
    | some m =>
      obtain rfl := h.after.keyed id m hm
      rw [removeNext_of_stored hm]
      exact h.append (h.after.accounts_removeStored hm true)

theorem pairwise_authored (g : Board) (author : IdentityId) :
    (g.authored author).Pairwise fun a b => compare a b = .lt :=
  g.messages.ordered_keys.filter _

/-- The removals of an author's messages are accounted for by their reports together. -/
theorem Coherent.accounts_authored (h : g.Coherent) (author : IdentityId) :
    Accounts g (g.removeAll (g.authored author)).1 (g.removeAll (g.authored author)).2 :=
  (Accounts.refl h).foldl_removeNext (g.authored author)

end Board

/-! ## A whole author -/

/-- The report says what came of the removal of an author, no more and no less. -/
structure RemovalReport.Describes (r : RemovalReport) (g g' : Board) (author : IdentityId) :
    Prop where
  /-- What was taken away is listed in order and without repeats. -/
  ordered : r.removed.Pairwise fun a b => compare a b = .lt
  removed : ∀ id, id ∈ r.removed ↔ ∃ m, g.messages[id]? = some m ∧ m.author = author
  ghostsLeft : ∀ id, id ∈ r.ghostsLeft ↔ id ∈ r.removed ∧ id ∈ g'.ghostIds
  deletedRoots : ∀ k, k ∈ r.deletedRoots ↔ k ∈ g'.deletedRoots ∧ k ∉ g.deletedRoots
  threadsRemoved : ∀ k, k ∈ r.threadsRemoved ↔ k ∈ g.threads ∧ k ∉ g'.threads
  ghostsVanished : ∀ id, id ∈ r.ghostsVanished ↔ id ∈ g.ghostIds ∧ id ∉ g'.ghostIds

namespace Board

variable {g : Board}

theorem Coherent.describes_removeAuthor (h : g.Coherent) (author : IdentityId) :
    (g.removeAuthor author).2.Describes g (g.removeAuthor author).1 author := by
  have haccounts := h.accounts_authored author
  have hremoved := removed_removeAuthor h.keyed author
  constructor
  case ordered => exact hremoved ▸ g.pairwise_authored author
  case removed =>
    intro id
    rw [hremoved, mem_authored, mem_iff_getElem?]
    constructor
    · rintro ⟨⟨m, hm⟩, hid⟩
      exact ⟨m, hm, (congrArg MessageId.author (h.keyed id m hm)).trans hid⟩
    · rintro ⟨m, hm, hauthor⟩
      exact ⟨⟨m, hm⟩, (congrArg MessageId.author (h.keyed id m hm)).symm.trans hauthor⟩
  case ghostsLeft =>
    intro id
    refine mem_set_filter.trans ?_
    rw [← Std.ExtTreeSet.mem_iff_contains]
    refine and_congr_left fun hghost => ?_
    exact ⟨haccounts.removed_of_ghostsLeft id,
      fun hid => haccounts.ghostsLeft_of_removed id hid hghost⟩
  case deletedRoots =>
    intro k
    refine mem_set_filter.trans ?_
    rw [← Std.ExtTreeSet.mem_iff_contains, and_comm]
    refine and_congr_right fun hk => ?_
    constructor
    · intro hreported hold
      exact (h.rootless_of_mem hold).1 (haccounts.starts_of_deletedRoots k hreported)
    · exact (haccounts.deletedRoots k hk).resolve_left
  case threadsRemoved =>
    intro k
    refine mem_set_filter.trans ?_
    rw [Bool.not_eq_true', ← Bool.not_eq_true, ← Std.ExtTreeMap.mem_iff_contains]
    refine and_congr_left fun hgone => ?_
    exact ⟨haccounts.threads_of_threadsRemoved k,
      fun hk => (haccounts.threadsRemoved k hk).resolve_left hgone⟩
  case ghostsVanished =>
    intro id
    exact Std.ExtTreeSet.mem_diff_iff

/-- What is left of a board without an author is what rebuilding makes of the other messages. -/
theorem Coherent.removeAuthor_eq_rebuild (h : g.Coherent) (author : IdentityId) :
    (g.removeAuthor author).1 = rebuild g.name (g.storedMessages.filter (·.author ≠ author))
      (g.removeAuthor author).1.deletedRoots.toList := by
  obtain ⟨hcoherent, hname, hmessages, -⟩ := h.removeAuthor author
  have hms (m : Message) : (m ∈ g.storedMessages.filter (·.author ≠ author) ∧
      m.targets (g.removeAuthor author).1.name = true) ↔
        (g.removeAuthor author).1.messages[m.id]? = some m := by
    rw [List.mem_filter, mem_storedMessages h.keyed, hmessages, hname, decide_eq_true_iff]
    show (g.messages[m.id]? = some m ∧ m.id.author ≠ author) ∧ _ ↔ _
    split
    · next hauthor => simp [hauthor]
    · next hauthor =>
      refine ⟨fun hm => hm.1.1, fun hm => ⟨⟨hm, hauthor⟩, h.targets m.id m hm⟩⟩
  exact hname ▸ hcoherent.eq_rebuild hms fun k => Std.ExtTreeSet.mem_toList

/-- Removing an author from the board that a run leaves takes away exactly what the author wrote.
The roots deleted afterwards are those that were deleted before or are taken away, of threads with a
reply that stays; the board is what rebuilding makes of these and of the messages that stay; and the
report says what came of it. -/
theorem run_removeAuthor (name : BoardName) {ops : List Op} (hops : ∀ op ∈ ops, op.Admissible)
    (author : IdentityId) :
    let before := run name ops
    let after := (before.removeAuthor author).1
    let report := (before.removeAuthor author).2
    (∀ (id : MessageId) (m : Message), after.messages[id]? = some m ↔
        before.messages[id]? = some m ∧ m.author ≠ author) ∧
      (∀ k : MessageId, k ∈ after.deletedRoots ↔
        (k ∈ before.deletedRoots ∨
          ∃ m : Message, before.messages[k]? = some m ∧ m.author = author ∧ m.thread = none) ∧
        ∃ (id : MessageId) (m : Message), after.messages[id]? = some m ∧ m.thread = some k) ∧
      after = rebuild name (before.storedMessages.filter (·.author ≠ author))
        after.deletedRoots.toList ∧
      report.Describes before after author := by
  intro before after report
  obtain ⟨h, hname⟩ := coherent_run name hops
  have hauthor {id : MessageId} {m : Message} (hm : before.messages[id]? = some m) :
      m.author = id.author := congrArg MessageId.author (h.keyed id m hm)
  have hrebuild := h.removeAuthor_eq_rebuild author
  rw [hname] at hrebuild
  refine ⟨fun id m => ?_, fun k => ?_, hrebuild, h.describes_removeAuthor author⟩
  · show (before.removeAuthor author).1.messages[id]? = some m ↔ _
    rw [(h.removeAuthor author).2.2.1, and_comm]
    by_cases hid : id.author = author
    · rw [if_pos hid]
      refine iff_of_false (by simp) fun hm => hm.1 ((hauthor hm.2).trans hid)
    · rw [if_neg hid, iff_and_self]
      exact fun hm => hauthor hm ▸ hid
  · have hstored : k.author = author ∧ before.Starts k ↔
        ∃ m : Message, before.messages[k]? = some m ∧ m.author = author ∧ m.thread = none := by
      constructor
      · rintro ⟨hk, m, hm, hthread⟩
        exact ⟨m, hm, (hauthor hm).trans hk, hthread⟩
      · rintro ⟨m, hm, hk, hthread⟩
        exact ⟨(hauthor hm).symm.trans hk, m, hm, hthread⟩
    rw [← hstored]
    simp only [← replyIn?_eq_some]
    exact h.mem_deletedRoots_removeAuthor author

/-- The reply that is left of the ring waits for the one that was taken away. -/
theorem ring_removeAuthor : (∀ op ∈ Ring.ops, op.Admissible) ∧
    let before := run Ring.board Ring.ops
    let report := (before.removeAuthor Ring.second.author).2
    report.Describes before (before.removeAuthor Ring.second.author).1 Ring.second.author ∧
      report = { removed := [Ring.second.id], ghostsLeft := {Ring.second.id} } := by
  have hops : ∀ op ∈ Ring.ops, op.Admissible := by decide
  obtain ⟨-, -, -, hreport⟩ := run_removeAuthor Ring.board hops Ring.second.author
  exact ⟨hops, hreport, by decide +kernel⟩

end Board

end Noticeboard
