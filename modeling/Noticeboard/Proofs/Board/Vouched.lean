import Noticeboard.Proofs.Board.ArrivalReport
import Noticeboard.Proofs.ThreadTree.Vouched

/-!
# Ghosts on a board

Validation admits no message that names itself, and boards without such messages are coherent. A
snapshot may bring one back all the same. What can be said of every board is that it is `Honest`: its
index of replies is the one that the stored messages call for, and its ghosts are vouched for by replies
that are stored and name the ghost as their parent (`Vouched`).

That is enough to tell when an arrival fills a ghost: the replies that wait for the message are those
under its ghosts, so that every ghost of it goes with the last of them
(`Honest.readied_snd_iff`).
-/

namespace Noticeboard

namespace Board

variable {g g' : Board} {loose loose' : Set MessageId} {m x : Message} {id c k p : MessageId}
  {t t' : ThreadTree} {ids : List MessageId} {tombstone : Bool}

/-- The ghosts of all trees are vouched for by stored replies, and every stored reply has a slot in the
tree of its thread. -/
structure Vouched (g : Board) (loose : Set MessageId) : Prop where
  trees : ∀ (k : MessageId) (t : ThreadTree), g.threads[k]? = some t → t.Vouched loose
  parents : ∀ (k : MessageId) (t : ThreadTree), g.threads[k]? = some t → ∀ c q,
    t.linkOf? c = some (.node q) → ∃ m, g.replyIn? k c = some m ∧ m.parent = some q
  slots : ∀ k c, (∃ (t : ThreadTree) (l : Link), g.threads[k]? = some t ∧ t.linkOf? c = some l) ↔
    ∃ m, g.replyIn? k c = some m

namespace Vouched

theorem empty (name : BoardName) : (Board.empty name).Vouched ∅ := by
  have hthreads (k : MessageId) : (Board.empty name).threads[k]? = none := by simp [Board.empty]
  have hreply (k c : MessageId) : (Board.empty name).replyIn? k c = none := by
    simp [replyIn?, Board.empty]
  constructor
  all_goals simp [hthreads, hreply]

theorem mono (h : g.Vouched loose) (hsub : loose' ⊆ loose) : g.Vouched loose' :=
  ⟨fun k t ht => (h.trees k t ht).mono hsub, h.parents, h.slots⟩

/-- Only trees and replies matter. -/
theorem of_eq (h : g.Vouched loose) (hthreads : g'.threads = g.threads)
    (hreplies : g'.replyIn? = g.replyIn?) : g'.Vouched loose := by
  refine ⟨?_, ?_, ?_⟩
  all_goals rw [hthreads]
  · exact h.trees
  · rw [hreplies]
    exact h.parents
  · rw [hreplies]
    exact h.slots

/-- Thread `k` changes, with its tree `t'`. -/
theorem replace (h : g.Vouched loose) (hreplies : ∀ q c, q ≠ k → g'.replyIn? q c = g.replyIn? q c)
    (hthreads : g'.threads = g.threads.insert k t') (htree : t'.Vouched loose')
    (hparents : ∀ c q, t'.linkOf? c = some (.node q) →
      ∃ m, g'.replyIn? k c = some m ∧ m.parent = some q)
    (hslots : ∀ c, (∃ l, t'.linkOf? c = some l) ↔ ∃ m, g'.replyIn? k c = some m)
    (hloose : ∀ q c m, q ≠ k → g.replyIn? q c = some m → c ∈ loose' → c ∈ loose) :
    g'.Vouched loose' := by
  have hget (q : MessageId) : g'.threads[q]? = if k = q then some t' else g.threads[q]? := by
    simp [hthreads, Std.ExtTreeMap.getElem?_insert]
  constructor
  · intro q s hs
    rw [hget] at hs
    split at hs
    · cases hs
      exact htree
    · next hne =>
      have hold := h.trees q s hs
      refine ⟨hold.held, fun p gh hp c hc => ?_⟩
      obtain ⟨hfast, hlink⟩ := hold.names p gh hp c hc
      obtain ⟨m, hm⟩ := (h.slots q c).1 ⟨s, _, hs, hlink⟩
      exact ⟨fun hl => hfast (hloose q c m (Ne.symm hne) hm hl), hlink⟩
  · intro q s hs c p hlink
    rw [hget] at hs
    split at hs
    · next he =>
      cases hs
      exact he ▸ hparents c p hlink
    · next hne =>
      rw [hreplies q c (Ne.symm hne)]
      exact h.parents q s hs c p hlink
  · intro q c
    rw [hget]
    split
    · next he =>
      subst he
      simpa using hslots c
    · next hne =>
      rw [hreplies q c (Ne.symm hne)]
      exact h.slots q c

/-- Another tree takes the place of the tree of thread `k`. -/
theorem setTree (h : g.Vouched loose) (ht : g.threads[k]? = some t) (htree : t'.Vouched loose')
    (hsame : ∀ c, (∃ l, t'.linkOf? c = some l) ↔ ∃ l, t.linkOf? c = some l)
    (hparents : ∀ c q, t'.linkOf? c = some (.node q) →
      ∃ m, g.replyIn? k c = some m ∧ m.parent = some q)
    (hloose : ∀ q c m, q ≠ k → g.replyIn? q c = some m → c ∈ loose' → c ∈ loose) :
    { g with threads := g.threads.insert k t' }.Vouched loose' := by
  refine h.replace (fun _ _ _ => rfl) rfl htree hparents (fun c => ?_) hloose
  rw [hsame]
  refine Iff.trans ?_ (h.slots k c)
  simp [ht]

/-- A stored reply with its tree and slot. -/
theorem reply_of_treeOf? (h : g.Vouched loose) (htree : g.treeOf? id = some (k, t)) :
    ∃ m r, g.messages[id]? = some m ∧ g.replyIn? k id = some m ∧ g.threads[k]? = some t ∧
      t.nodes[id]? = some (.reply r) ∧ t.linkOf? id = some r.parent := by
  obtain ⟨m, hm, hk, ht⟩ := treeOf?_eq_some.1 htree
  have hreply := replyIn?_eq_some.2 ⟨hm, hk⟩
  obtain ⟨t', l, ht', hl⟩ := (h.slots k id).2 ⟨m, hreply⟩
  cases ht.symm.trans ht'
  obtain ⟨r, hr, rfl⟩ := ThreadTree.linkOf?_eq_some_iff.1 hl
  exact ⟨m, r, hm, hreply, ht, ThreadTree.reply?_eq_some hr, hl⟩

theorem replyIn?_of_treeOf?_none (h : g.Vouched loose) (htree : g.treeOf? id = none)
    (k : MessageId) : g.replyIn? k id = none := by
  refine Option.eq_none_iff_forall_ne_some.2 fun m hm => ?_
  obtain ⟨t, -, ht, -⟩ := (h.slots k id).2 ⟨m, hm⟩
  obtain ⟨hstored, hk⟩ := replyIn?_eq_some.1 hm
  cases htree.symm.trans (treeOf?_eq_some.2 ⟨m, hstored, hk, ht⟩)

/-- What is no stored reply hangs under no ghost. -/
theorem insert_loose (h : g.Vouched loose) (hid : ∀ k, g.replyIn? k id = none) :
    g.Vouched ({id} ∪ loose) := by
  refine ⟨fun k t ht => ⟨(h.trees k t ht).held, fun q gh hq c hc => ?_⟩, h.parents, h.slots⟩
  obtain ⟨hfast, hlink⟩ := (h.trees k t ht).names q gh hq c hc
  refine ⟨?_, hlink⟩
  rintro (rfl | hl)
  · obtain ⟨m, hm⟩ := (h.slots k c).1 ⟨t, _, ht, hlink⟩
    cases (hid k).symm.trans hm
  · exact hfast hl

/-! ## Moving replies -/

/-- Detaching a reply takes it from where it hangs in its tree. -/
theorem detach_cases (h : g.Vouched loose) (id : MessageId) :
    (g.detach id = (g, false) ∧ ∀ k, g.replyIn? k id = none) ∨
    ∃ (k : MessageId) (t : ThreadTree) (l : Link) (m : Message), g.threads[k]? = some t ∧
      g.replyIn? k id = some m ∧ t.linkOf? id = some l ∧ g.detach id =
        ({ g with threads := g.threads.insert k (t.unlink id l).1 }, (t.unlink id l).2) := by
  rw [Board.detach]
  cases htree : g.treeOf? id with
  | none => exact .inl ⟨rfl, h.replyIn?_of_treeOf?_none htree⟩
  | some found =>
    obtain ⟨k, t⟩ := found
    obtain ⟨m, r, -, hm, ht, hr, hlink⟩ := h.reply_of_treeOf? htree
    exact .inr ⟨k, t, r.parent, m, ht, hm, hlink, by simp [ThreadTree.reply?, hr, Slot.reply?]⟩

/-- Detaching a reply makes it loose. -/
theorem detach (h : g.Vouched loose) (id : MessageId) :
    (g.detach id).1.Vouched ({id} ∪ loose) := by
  rcases h.detach_cases id with ⟨heq, hnone⟩ | ⟨k, t, l, m, ht, hm, hlink, heq⟩
  · rw [heq]
    exact h.insert_loose hnone
  · rw [heq]
    have hsame := ThreadTree.linkOf?_congr (ThreadTree.bare?_unlink t id l)
    refine h.setTree ht ((h.trees k t ht).unlink hlink) (fun c => by rw [hsame]) (fun c q hc => ?_) ?_
    · rw [hsame] at hc
      exact h.parents k t ht c q hc
    · rintro q c y hne hy (rfl | hl)
      · have hk := (replyIn?_eq_some.1 hm).2
        obtain ⟨hy, hq⟩ := replyIn?_eq_some.1 hy
        rw [(replyIn?_eq_some.1 hm).1] at hy
        cases hy
        exact absurd (Option.some.inj (hq.symm.trans hk)) hne
      · exact hl

/-- Attaching a loose reply puts it where it belongs. -/
theorem attach (h : g.Vouched loose) (hid : id ∈ loose) :
    (g.attach id).1.Vouched (loose \ {id}) := by
  rw [Board.attach]
  split
  · next m k t hm htree =>
    obtain ⟨m', r, hm', hreply, ht, hr, hlink⟩ := h.reply_of_treeOf? htree
    cases hm.symm.trans hm'
    have hsame (c : MessageId) : (t.link id m.created (g.placement m k)).1.linkOf? c =
        if id = c then some (g.placement m k) else t.linkOf? c := by
      obtain ⟨y, hy, -⟩ := Option.map_eq_some_iff.1 hlink
      rw [ThreadTree.linkOf?, ThreadTree.bare?_link]
      split
      · rw [hy]
        rfl
      · rfl
    have htree : (t.link id m.created (g.placement m k)).1.Vouched (loose \ {id}) :=
      ((h.trees k t ht).link hid hr m.created (g.placement m k)).mono fun c hc =>
        ⟨hc.1, fun he => absurd he hc.2⟩
    refine h.setTree ht htree (fun c => ?_) (fun c q hc => ?_) fun _ _ _ _ _ hl => hl.1
    · rw [hsame]
      split
      · next he => simp [← he, hlink]
      · rfl
    · rw [hsame] at hc
      split at hc
      · next he =>
        exact ⟨m, he ▸ hreply, (parent_of_placement_eq_node (Option.some.inj hc)).1⟩
      · exact h.parents k t ht c q hc
  · exact h.mono Set.sdiff_subset

theorem relocate (h : g.Vouched loose) (id : MessageId) :
    (g.relocate id).1.Vouched (loose \ {id}) :=
  ((h.detach id).attach (Set.mem_union_left loose rfl)).mono
    (Set.sdiff_subset_sdiff_left Set.subset_union_right)

theorem detachAll (h : g.Vouched loose) (ids : List MessageId) :
    (g.detachAll ids).1.Vouched ({id | id ∈ ids} ∪ loose) := by
  rw [detachAll_fst]
  induction ids generalizing g loose with
  | nil => simpa using h
  | cons id ids ih =>
    refine (ih (h.detach id)).mono fun c hc => ?_
    simp only [Set.mem_union, Set.mem_ofPred_eq, List.mem_cons, Set.mem_singleton_iff] at hc ⊢
    tauto

theorem attachAll (h : g.Vouched loose) (hids : ids.Nodup) (hloose : ∀ id ∈ ids, id ∈ loose) :
    (g.attachAll ids).1.Vouched ∅ := by
  rw [attachAll_fst]
  induction ids generalizing g loose with
  | nil => exact h.mono (Set.empty_subset loose)
  | cons id ids ih =>
    obtain ⟨hid, hnodup⟩ := List.nodup_cons.1 hids
    refine ih (h.attach (hloose id List.mem_cons_self)) hnodup fun c hc => ?_
    exact ⟨hloose c (List.mem_cons_of_mem id hc), fun he => hid (he ▸ hc)⟩

theorem relocateAll (h : g.Vouched ∅) (ids : List MessageId) :
    (g.relocateAll ids).1.Vouched ∅ := by
  rw [relocateAll_fst]
  exact List.foldlRecOn (motive := fun g : Board => g.Vouched ∅) ids _ h fun g h id _ =>
    (h.relocate id).mono (Set.empty_subset _)

/-! ## Filing a message -/

/-- A thread may be given a tree: the one that it has, or one without members. -/
theorem treeOrNew (h : g.Vouched loose) (k : MessageId) : (g.treeOrNew k).Vouched loose ∧
    (∀ c q, (g.treeOrNew k).linkOf? c = some (.node q) →
      ∃ m, g.replyIn? k c = some m ∧ m.parent = some q) ∧
    ∀ c, (∃ l, (g.treeOrNew k).linkOf? c = some l) ↔ ∃ m, g.replyIn? k c = some m := by
  have hslots := h.slots k
  rw [Board.treeOrNew]
  cases ht : g.threads[k]? with
  | some t => exact ⟨h.trees k t ht, h.parents k t ht, fun c => by simpa [ht] using hslots c⟩
  | none =>
    have hlink (c : MessageId) : (ThreadTree.new k .unknown).linkOf? c = none := by
      simp [ThreadTree.new, ThreadTree.linkOf?, ThreadTree.bare?]
    have hempty : (ThreadTree.new k .unknown).isEmpty = true := by
      simp [ThreadTree.new, ThreadTree.isEmpty]
    refine ⟨ThreadTree.vouched_of_isEmpty hempty loose, fun c q hc => ?_, fun c => ?_⟩
    · cases (hlink c).symm.trans hc
    · simpa [ht, hlink] using hslots c

theorem placeRoot (h : g.Vouched loose) (hm : g.messages[m.id]? = none) (ht : m.thread = none) :
    (g.placeRoot m).1.Vouched loose := by
  obtain ⟨htree, hparents, hslots⟩ := h.treeOrNew m.id
  have hreply (k id : MessageId) : (g.placeRoot m).1.replyIn? k id = g.replyIn? k id := by
    rw [replyIn?_insert (g := g) (m := m) rfl]
    split
    · next he => simp [replyIn?, ← he, hm, ht]
    · rfl
  refine h.replace (fun q c _ => hreply q c) rfl (htree.setRoot .stored) (fun c q hc => ?_)
    (fun c => ?_) fun _ _ _ _ _ hl => hl
  · rw [hreply]
    exact hparents c q hc
  · rw [hreply]
    exact hslots c

/-- A reply is filed under a parent that it names. It may count as loose if it names itself, since it
then hangs under no other message. -/
theorem placeReply (h : g.Vouched loose) (hm : g.messages[m.id]? = none) (ht : m.thread = some k)
    (hself : m.id ∈ loose → m.parent = some m.id) : (g.placeReply m k).1.Vouched loose := by
  obtain ⟨htree, hparents, hslots⟩ := h.treeOrNew k
  have hreply (q id : MessageId) : (g.placeReply m k).1.replyIn? q id =
      if m.id = id then if m.thread = some q then some m else none else g.replyIn? q id :=
    replyIn?_insert rfl q id
  have hfree (q : MessageId) : g.replyIn? q m.id = none := by simp [replyIn?, hm]
  have hnone : (g.treeOrNew k).linkOf? m.id = none := by
    refine Option.eq_none_iff_forall_ne_some.2 fun l hl => ?_
    obtain ⟨x, hx⟩ := (hslots m.id).1 ⟨l, hl⟩
    cases (hfree k).symm.trans hx
  let r : Reply := ⟨m.created, m.author, g.placement m k, ∅⟩
  have hthreads : (g.placeReply m k).1.threads =
      g.threads.insert k ((g.treeOrNew k).insertReply m.id r).1 := rfl
  have hlink (c : MessageId) : ((g.treeOrNew k).insertReply m.id r).1.linkOf? c =
      if m.id = c then some (g.placement m k) else (g.treeOrNew k).linkOf? c := by
    rw [ThreadTree.linkOf?, ThreadTree.bare?_insertReply]
    split <;> rfl
  -- A parent that is the message itself is not stored yet, unless it is the thread.
  have hown : m.parent = some m.id → g.placement m k = .root ∨ g.placement m k = .node m.id := by
    intro hparent
    simp only [placement, hparent, hm]
    split
    · exact .inl rfl
    · exact .inr rfl
  refine h.replace (fun q c hq => ?_) hthreads ((htree.insertReply hnone r).mono fun c hc => ?_)
    (fun c q hc => ?_) (fun c => ?_) fun _ _ _ _ _ hl => hl
  · rw [hreply]
    split
    · next he => rw [← he, hfree, ht, if_neg fun hk => hq (Option.some.inj hk).symm]
    · rfl
  · exact ⟨Set.mem_insert_of_mem _ hc, fun he => hown (hself (he ▸ hc))⟩
  · rw [hlink] at hc
    rw [hreply]
    split at hc
    · next he =>
      exact ⟨m, by rw [if_pos he, if_pos ht], (parent_of_placement_eq_node (Option.some.inj hc)).1⟩
    · next hne =>
      rw [if_neg hne]
      exact hparents c q hc
  · rw [hlink, hreply]
    split
    · simp
    · exact hslots c

theorem place (h : g.Vouched loose) (hm : g.messages[m.id]? = none)
    (hself : m.id ∈ loose → m.parent = some m.id) : (g.place m).1.Vouched loose := by
  rw [Board.place]
  cases ht : m.thread with
  | none => exact h.placeRoot hm ht
  | some k => exact h.placeReply hm ht hself

/-! ## Clearing a place -/

theorem clearRoot (h : g.Vouched loose) (hreplies : g'.replyIn? = g.replyIn?)
    (hthreads : g'.threads = g.threads) (k : MessageId) (tombstone : Bool) :
    (g'.clearRoot k tombstone).1.Vouched loose := by
  have hsame := h.of_eq hthreads hreplies
  rw [Board.clearRoot]
  split
  · exact hsame
  · next t ht =>
    have hroot (root : Root) :
        { g' with threads := g'.threads.insert k { t with root } }.Vouched loose :=
      hsame.setTree ht ((hsame.trees k t ht).setRoot root) (fun _ => Iff.rfl) (hsame.parents k t ht)
        fun _ _ _ _ _ hl => hl
    split
    · exact (hroot .deleted).of_eq rfl rfl
    · exact hroot .unknown

/-- The slot of a loose reply goes with the reply. -/
theorem clearReply (h : g.Vouched loose) (hm : g.messages[m.id]? = some m) (ht : m.thread = some k)
    (hid : m.id ∈ loose) (hmessages : g'.messages = g.messages.erase m.id)
    (hthreads : g'.threads = g.threads) : (g'.clearReply m.id k).Vouched loose := by
  have hreply := replyIn?_eq_some.2 ⟨hm, ht⟩
  obtain ⟨t, l, htree, hl⟩ := (h.slots k m.id).2 ⟨m, hreply⟩
  obtain ⟨r, hr, -⟩ := ThreadTree.linkOf?_eq_some_iff.1 hl
  have hclear : g'.clearReply m.id k =
      { g' with threads := g.threads.insert k { t with nodes := t.nodes.erase m.id } } := by
    simp [Board.clearReply, hthreads, htree, hr]
  have herased (q id : MessageId) : (g'.clearReply m.id k).replyIn? q id =
      if m.id = id then none else g.replyIn? q id :=
    replyIn?_erase (by rw [hclear, hmessages]) q id
  have hthreads' : (g'.clearReply m.id k).threads =
      g.threads.insert k { t with nodes := t.nodes.erase m.id } := by rw [hclear]
  have hlink (c : MessageId) : { t with nodes := t.nodes.erase m.id }.linkOf? c =
      if m.id = c then none else t.linkOf? c := by
    rw [ThreadTree.linkOf?, ThreadTree.bare?_erase rfl]
    split <;> rfl
  refine h.replace (fun q c hq => ?_) hthreads' ((h.trees k t htree).eraseReply hid)
    (fun c q hc => ?_) (fun c => ?_) fun _ _ _ _ _ hl => hl
  · rw [herased]
    split
    · next he =>
      subst he
      simp [replyIn?, hm, Option.filter, ht, Ne.symm hq]
    · rfl
  · rw [hlink] at hc
    split at hc
    · cases hc
    · next hne =>
      rw [herased, if_neg hne]
      exact h.parents k t htree c q hc
  · rw [hlink, herased]
    split
    · simp
    · simpa [htree] using h.slots k c

/-- A tree without members may be dropped. -/
theorem dropTree (h : g.Vouched loose) (hk : g.isAbandoned k = true) :
    (g.dropTree k).Vouched loose := by
  obtain ⟨t, ht, -, hempty⟩ := isAbandoned_iff.1 hk
  have hget (q : MessageId) :
      (g.dropTree k).threads[q]? = if k = q then none else g.threads[q]? := by
    simp [Board.dropTree, Std.ExtTreeMap.getElem?_erase]
  have hold {q : MessageId} {s : ThreadTree} (hq : (g.dropTree k).threads[q]? = some s) :
      g.threads[q]? = some s := by
    rw [hget] at hq
    split at hq
    · cases hq
    · exact hq
  refine ⟨fun q s hs => h.trees q s (hold hs), fun q s hs => h.parents q s (hold hs), fun q c => ?_⟩
  refine Iff.trans ?_ (h.slots q c)
  rw [hget]
  split
  · next he =>
    subst he
    have hnodes : t.nodes = ∅ := Std.ExtTreeMap.isEmpty_iff.1 hempty
    simp [ht, ThreadTree.linkOf?, ThreadTree.bare?, hnodes]
  · rfl

theorem markDeletedRoot (h : g.Vouched loose) (k : MessageId) :
    (g.markDeletedRoot k).1.Vouched loose := by
  rw [Board.markDeletedRoot]
  split
  · next t ht =>
    split
    · have hroot : { g with
          threads := g.threads.insert k { t with root := .deleted } }.Vouched loose :=
        h.setTree ht ((h.trees k t ht).setRoot .deleted) (fun _ => Iff.rfl) (h.parents k t ht)
          fun _ _ _ _ _ hl => hl
      exact hroot.of_eq rfl rfl
    · exact h
  · exact h

/-- The slots of what is not stored are those of ghosts. -/
theorem hasSlotIn_iff (h : g.Vouched loose) (hp : g.messages[p]? = none) :
    g.HasSlotIn k p ↔ g.HasGhostIn k p := by
  constructor
  · rintro ⟨t, ht, hslot⟩
    obtain ⟨r | gh, hslot⟩ := mem_iff_getElem?.1 hslot
    · have hlink : t.linkOf? p = some r.parent := by
        rw [ThreadTree.linkOf?, ThreadTree.bare?_of_reply hslot]
        rfl
      obtain ⟨m, hm⟩ := (h.slots k p).1 ⟨t, _, ht, hlink⟩
      cases hp.symm.trans (replyIn?_eq_some.1 hm).1
    · exact ⟨t, gh, ht, ThreadTree.ghost?_eq_some_iff.2 hslot⟩
  · rintro ⟨t, gh, ht, hgh⟩
    exact ⟨t, ht, mem_iff_getElem?.2 ⟨_, ThreadTree.ghost?_eq_some_iff.1 hgh⟩⟩

end Vouched

/-! ## What every board has -/

/-- Messages are kept under their ids, the index of replies is the one that they call for, and every
ghost is vouched for. -/
structure Honest (g : Board) : Prop where
  keyed : Keyed g.messages
  waits : ∀ p c, g.Waits p c ↔ ∃ m : Message, g.messages[c]? = some m ∧ m.RepliesTo p
  vouched : g.Vouched ∅

theorem honest_empty (name : BoardName) : (empty name).Honest := by
  refine ⟨?_, ?_, .empty name⟩
  · simp [Keyed, empty]
  · simp [Waits, empty]

namespace Honest

theorem vouched_note (h : g.Honest) (m : Message) : (g.note m).Vouched ∅ :=
  h.vouched.of_eq (threads_note g m) (by funext k id; rw [replyIn?, replyIn?, messages_note])

/-- What waits for an arriving message is stored, the message itself apart. -/
theorem mem_waiting (h : g.Honest) (hc : c ∈ (g.note m).waitingOn m.id) :
    (∃ x : Message, g.messages[c]? = some x ∧ x.RepliesTo m.id) ∨
      (c = m.id ∧ m.RepliesTo m.id) := by
  rwa [mem_waitingOn, waits_note, h.waits] at hc

theorem vouched_readied (h : g.Honest) (m : Message) :
    (g.readied m).1.Vouched {c | c ∈ (g.note m).waitingOn m.id} := by
  have hdetached := (h.vouched_note m).detachAll ((g.note m).waitingOn m.id)
  rwa [Set.union_empty] at hdetached

/-- Detaching replies that wait for the message takes no slot but its own. -/
theorem vacates_foldl (h : g.Honest) (hm : g.messages[m.id]? = none) {r : Board × Bool}
    (hr : Vacates m.id g r.1 r.2) (hvouched : r.1.Vouched loose)
    (hmessages : r.1.messages = g.messages) (hids : ∀ c ∈ ids, c ∈ (g.note m).waitingOn m.id) :
    Vacates m.id g (ids.foldl detachNext r).1 (ids.foldl detachNext r).2 := by
  induction ids generalizing r loose with
  | nil => exact hr
  | cons id ids ih =>
    obtain ⟨hid, hids⟩ := List.forall_mem_cons.1 hids
    suffices hstep : Vacates m.id r.1 (r.1.detach id).1 (r.1.detach id).2 from
      ih (hr.trans hstep) (hvouched.detach id) ((regrown_detach r.1 id).messages.trans hmessages) hids
    rcases hvouched.detach_cases id with ⟨heq, -⟩ | ⟨k, t, l, x, ht, hx, hlink, heq⟩
    · rw [heq]
      exact .refl m.id r.1
    rw [heq]
    refine vacates_unlink ht fun p hp => ?_
    obtain ⟨y, hy, hparent⟩ := hvouched.parents k t ht id p (hp ▸ hlink)
    have hy : g.messages[id]? = some y := hmessages ▸ (replyIn?_eq_some.1 hy).1
    rcases h.mem_waiting hid with ⟨z, hz, -, hnames⟩ | ⟨rfl, -⟩
    · cases hy.symm.trans hz
      exact Option.some.inj (hparent.symm.trans hnames)
    · cases hm.symm.trans hy

/-- Only slots of the message go while the board is made ready for it. -/
theorem vacates_readied (h : g.Honest) (hm : g.messages[m.id]? = none) :
    Vacates m.id g (g.readied m).1 (g.readied m).2 := by
  rw [readied, detachAll_eq_foldl]
  exact h.vacates_foldl hm (r := (g.note m, false)) (vacates_note g m m.id) (h.vouched_note m)
    (messages_note g m) fun _ hc => hc

/-- Once the waiting replies are off, no ghost of the message is left. -/
theorem not_hasGhostIn_readied (h : g.Honest) : ¬ (g.readied m).1.HasGhostIn k m.id := by
  rintro ⟨t, gh, ht, hgh⟩
  have hready := h.vouched_readied m
  have hghost := ThreadTree.ghost?_eq_some_iff.1 hgh
  obtain ⟨c, hc⟩ := (hready.trees k t ht).held m.id gh hghost
  obtain ⟨hfast, hlink⟩ := (hready.trees k t ht).names m.id gh hghost c hc
  obtain ⟨x, hx, hparent⟩ := hready.parents k t ht c m.id hlink
  obtain ⟨hx, hk⟩ := replyIn?_eq_some.1 hx
  rw [messages_readied] at hx
  refine hfast (mem_waitingOn.2 (waits_note.2 (.inl ((h.waits m.id c).2 ⟨x, hx, ?_, hparent⟩))))
  rw [hk, Option.isSome_some]

/-- An arrival fills a ghost if there was one for the message. -/
theorem readied_snd_iff (h : g.Honest) (hm : g.messages[m.id]? = none) :
    (g.readied m).2 = true ↔ ∃ k, g.HasGhostIn k m.id := by
  simp only [← h.vouched.hasSlotIn_iff hm]
  refine (h.vacates_readied hm).gone_iff fun k => ?_
  rw [(h.vouched_readied m).hasSlotIn_iff (by rw [messages_readied, hm])]
  exact h.not_hasGhostIn_readied

/-! ## Operations keep boards honest -/

theorem insert (h : g.Honest) (hm : g.messages[m.id]? = none) : (g.insert m).1.Honest := by
  have hplaced : (g.filed m).Vouched {c | c ∈ (g.note m).waitingOn m.id} := by
    rw [filed_eq]
    refine (h.vouched_readied m).place (by rw [messages_readied, hm]) fun hc => ?_
    rcases h.mem_waiting hc with ⟨x, hx, -⟩ | ⟨-, -, hparent⟩
    · cases hm.symm.trans hx
    · exact hparent
  constructor
  · rw [messages_insert]
    exact h.keyed.insert m
  · intro p c
    have hwaits : (g.insert m).1.Waits p c ↔ (g.note m).Waits p c := by
      rw [Waits, Waits, (regrown_filed g m).repliesTo, repliesTo_filed]
    rw [hwaits, waits_note, h.waits, messages_insert]
    simp only [Std.ExtTreeMap.getElem?_insert, Std.LawfulEqOrd.compare_eq_iff_eq]
    grind
  · rw [insert_fst]
    exact (hplaced.attachAll (nodup_waitingOn _ m.id) fun _ hc => hc).relocateAll _

theorem ingested (h : g.Honest) (m : Message) : (g.ingested m).Honest := by
  cases htargets : m.targets g.name with
  | false => rwa [ingested_of_not_targets htargets]
  | true =>
    cases hm : g.messages[m.id]? with
    | none =>
      rw [ingested_eq_insert htargets hm]
      exact h.insert hm
    | some x => rwa [ingested_of_stored hm]

theorem vouched_cleared (h : g.Honest) (hm : g.messages[m.id]? = some m) (tombstone : Bool) :
    (g.cleared m tombstone).Vouched ∅ := by
  cases ht : m.thread with
  | none =>
    simp only [cleared, clearPlace, Message.isThread, ht, Option.isNone_none, if_true]
    refine h.vouched.clearRoot ?_ (by rw [unnote_eq]) m.id tombstone
    funext k id
    rw [replyIn?_erase (g := g) (c := m.id) (by rw [unnote_eq])]
    split
    · next he => simp [replyIn?, ← he, hm, Option.filter, ht]
    · rfl
  | some k =>
    simp only [cleared, clearPlace, Message.isThread, ht, Option.isNone_some, Bool.false_eq_true,
      if_false]
    have hgrown := regrown_detach g m.id
    refine ((h.vouched.detach m.id).clearReply (hgrown.messages ▸ hm) ht
      (Set.mem_union_left ∅ rfl) ?_ ?_).mono (Set.empty_subset _)
    all_goals rw [unnote_eq]

theorem removeStored (h : g.Honest) (hm : g.messages[m.id]? = some m) (tombstone : Bool) :
    (g.removeStored m tombstone).1.Honest := by
  have hrehung : (g.rehung m tombstone).Vouched ∅ :=
    ((h.vouched_cleared hm tombstone).relocateAll _).relocateAll _
  have hreplies : (g.rehung m tombstone).repliesTo = (g.unnote m).repliesTo :=
    (regrown_cleared g m tombstone).repliesTo.trans (repliesTo_cleared g m tombstone)
  have hkept : (g.removeStored m tombstone).1.repliesTo = (g.unnote m).repliesTo := by
    rw [removeStored_fst]
    split <;> exact hreplies
  constructor
  · rw [messages_removeStored]
    exact h.keyed.erase m.id
  · intro p c
    have hwaits : (g.removeStored m tombstone).1.Waits p c ↔ (g.unnote m).Waits p c := by
      rw [Waits, Waits, hkept]
    rw [hwaits, waits_unnote, h.waits, messages_removeStored]
    simp only [Std.ExtTreeMap.getElem?_erase, Std.LawfulEqOrd.compare_eq_iff_eq]
    grind
  · rw [removeStored_fst]
    split
    · next habandoned => exact hrehung.dropTree habandoned
    · exact hrehung

theorem removed (h : g.Honest) (id : MessageId) (tombstone : Bool) :
    (g.removed id tombstone).Honest := by
  cases hm : g.messages[id]? with
  | none => rwa [removed_of_none hm]
  | some m =>
    rw [removed_of_some hm]
    obtain rfl := h.keyed id m hm
    exact h.removeStored hm tombstone

theorem removeAuthor (h : g.Honest) (author : IdentityId) : (g.removeAuthor author).1.Honest := by
  rw [removeAuthor_fst]
  exact List.foldlRecOn (motive := Honest) _ _ h fun _ h id _ => h.removed id true

theorem markDeletedRoot (h : g.Honest) (k : MessageId) : (g.markDeletedRoot k).1.Honest := by
  have hkept : (g.markDeletedRoot k).1.messages = g.messages ∧
      (g.markDeletedRoot k).1.repliesTo = g.repliesTo := by
    rw [Board.markDeletedRoot]
    split
    · split <;> exact ⟨rfl, rfl⟩
    · exact ⟨rfl, rfl⟩
  refine ⟨hkept.1 ▸ h.keyed, fun p c => ?_, h.vouched.markDeletedRoot k⟩
  rw [Waits, hkept.2, hkept.1]
  exact h.waits p c

end Honest

/-- Whatever is in a snapshot, the boards built from it are honest. -/
theorem honest_rebuild (name : BoardName) (ms : List Message) (roots : List MessageId) :
    (rebuild name ms roots).Honest := by
  rw [rebuild]
  refine List.foldlRecOn (motive := Honest) roots _ ?_ fun g h k _ => h.markDeletedRoot k
  exact List.foldlRecOn (motive := Honest) _ _ (honest_empty name) fun g h m _ => h.ingested m

end Board

end Noticeboard
