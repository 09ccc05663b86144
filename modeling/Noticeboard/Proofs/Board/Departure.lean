import Noticeboard.Proofs.Board.Coherent

/-!
# Departures keep boards coherent

`Planted.clearReply` empties a slot and makes loose what hung there, `Planted.clearRoot` does the
same for the root of a thread, where nothing gets loose, and `Planted.dropTree` drops an abandoned
tree. `Coherent.removeStored` puts the steps of a departure together: after the replies that name the
message and the reply that cut a loop through it are moved, everything hangs where it belongs.
-/

namespace Noticeboard

namespace Board

variable {g g' : Board} {m : Message} {id c p k : MessageId} {t : ThreadTree}
  {links : MessageId → Link} {loose : Set MessageId} {tombstone : Bool}

/-! ## Clearing a place -/

theorem replyIn?_erase (h : g'.messages = g.messages.erase c) (k id : MessageId) :
    g'.replyIn? k id = if c = id then none else g.replyIn? k id := by
  simp only [replyIn?, h, Std.ExtTreeMap.getElem?_erase, Std.LawfulEqOrd.compare_eq_iff_eq]
  split <;> rfl

theorem starts_erase (h : g'.messages = g.messages.erase c) (k : MessageId) :
    g'.Starts k ↔ c ≠ k ∧ g.Starts k := by
  simp only [Starts, h, Std.ExtTreeMap.getElem?_erase, Std.LawfulEqOrd.compare_eq_iff_eq]
  split <;> simp [*]

/-- A departure changes no thread but its own. -/
theorem agreeOutside_erase (hm : g.messages[m.id]? = some m)
    (hmessages : g'.messages = g.messages.erase m.id)
    (hroots : ∀ q, q ≠ treeKey m → (q ∈ g'.deletedRoots ↔ q ∈ g.deletedRoots)) :
    AgreeOutside (treeKey m) g g' := by
  refine ⟨fun q id hq => ?_, fun q hq => ?_, hroots⟩
  · rw [treeKey] at hq
    rw [replyIn?_erase hmessages]
    split
    · next he => grind [replyIn?]
    · rfl
  · rw [treeKey] at hq
    rw [starts_erase hmessages]
    grind [Starts]

/-- Clearing a root leaves it deleted or unknown. -/
theorem clearRoot_spec (ht : g.threads[k]? = some t) (hk : k ∉ g.deletedRoots) (tombstone : Bool) :
    ∃ root, root ≠ .stored ∧
      (g.clearRoot k tombstone).1.messages = g.messages ∧
      (g.clearRoot k tombstone).1.threads = g.threads.insert k { t with root } ∧
      (∀ q, q ≠ k → (q ∈ (g.clearRoot k tombstone).1.deletedRoots ↔ q ∈ g.deletedRoots)) ∧
      (k ∈ (g.clearRoot k tombstone).1.deletedRoots ↔ root = .deleted) := by
  simp only [clearRoot, ht]
  split
  · refine ⟨.deleted, by simp, rfl, rfl, fun q hq => ?_, by simp⟩
    simp [hq.symm]
  · exact ⟨.unknown, by simp, rfl, rfl, fun _ _ => Iff.rfl, by simp [hk]⟩

/-- Clearing the root of a thread. -/
theorem Planted.clearRoot (h : g.Planted links loose) (hm : g.messages[m.id]? = some m)
    (ht : m.thread = none) (hmessages : g'.messages = g.messages.erase m.id)
    (hthreads : g'.threads = g.threads) (hroots : g'.deletedRoots = g.deletedRoots) :
    (g'.clearRoot m.id tombstone).1.Planted links loose := by
  obtain ⟨t, htree⟩ := h.tree_of m.id m hm
  rw [ht, Option.getD_none] at htree
  have hstarts : t.root = .stored := (h.stored m.id t htree).2 ⟨m, hm, ht⟩
  have hk : m.id ∉ g'.deletedRoots := by
    rw [hroots, h.deleted]
    simp [htree, hstarts]
  obtain ⟨root, hroot, hms, hth, hother, hself⟩ :=
    clearRoot_spec (hthreads ▸ htree) hk tombstone
  rw [hms.symm] at hmessages
  rw [hthreads] at hth
  rw [hroots] at hother
  have hkey : treeKey m = m.id := by simp [treeKey, ht]
  have hagree := agreeOutside_erase hm hmessages (by rwa [hkey])
  rw [hkey] at hagree
  have hreply (id : MessageId) :
      (g'.clearRoot m.id tombstone).1.replyIn? m.id id = g.replyIn? m.id id := by
    rw [replyIn?_erase hmessages]
    split
    · next he => simp [replyIn?, ← he, hm, Option.filter, ht]
    · rfl
  have hid : t.id = m.id := h.tree_id _ _ htree
  refine h.replace hagree hth hid ((h.knit _ _ htree).setRoot root)
    (fun id => ?_) (iff_of_false hroot ?_) hself fun _ _ _ _ _ => ⟨rfl, Iff.rfl⟩
  · rw [hreply]
    exact h.bare _ _ htree id
  · simp [starts_erase hmessages]

/-- Clearing the slot of a loose reply makes loose what hung there. -/
theorem Planted.clearReply (h : g.Planted links loose) (hm : g.messages[m.id]? = some m)
    (ht : m.thread = some k) (hid : m.id ∈ loose)
    (hlinks : ∀ c q, q ≠ k → (g.replyIn? q c).isSome → links c ≠ .node m.id)
    (hmessages : g'.messages = g.messages.erase m.id) (hthreads : g'.threads = g.threads)
    (hroots : g'.deletedRoots = g.deletedRoots) :
    (g'.clearReply m.id k).Planted links {c | links c = .node m.id ∨ (c ∈ loose ∧ c ≠ m.id)} := by
  obtain ⟨t, htree⟩ := h.tree_of m.id m hm
  rw [ht, Option.getD_some] at htree
  obtain ⟨r, hr, -⟩ := h.reply? htree (replyIn?_eq_some.2 ⟨hm, ht⟩)
  have hclear : g'.clearReply m.id k =
      { g' with threads := g.threads.insert k { t with nodes := t.nodes.erase m.id } } := by
    simp [Board.clearReply, hthreads, htree, hr]
  have hcleared : (g'.clearReply m.id k).messages = g.messages.erase m.id := by
    rw [hclear, hmessages]
  have hkey : treeKey m = k := by simp [treeKey, ht]
  have hagree : AgreeOutside (treeKey m) g (g'.clearReply m.id k) :=
    agreeOutside_erase hm hcleared (fun q _ => by rw [hclear, hroots])
  rw [hkey] at hagree
  have hlinkOf (c : MessageId) : t.linkOf? c = (g.replyIn? k c).map fun _ => links c :=
    h.linkOf? htree
  have hknit : { t with nodes := t.nodes.erase m.id }.Knit
      {c | t.linkOf? c = some (Link.node m.id) ∨ (c ∈ loose ∧ c ≠ m.id)} :=
    (h.knit k t htree).eraseReply hid (ThreadTree.reply?_eq_some hr) fun x => Iff.rfl
  have hthreads' : (g'.clearReply m.id k).threads =
      g.threads.insert k { t with nodes := t.nodes.erase m.id } := by rw [hclear]
  have htid : t.id = k := h.tree_id k t htree
  refine h.replace hagree hthreads' htid (hknit.congr fun c l hc => ?_) (fun id => ?_) ?_ ?_
    fun c x q hq hx => ⟨rfl, ?_⟩
  · rw [ThreadTree.linkOf?, ThreadTree.bare?_erase rfl] at hc
    split at hc
    · cases hc
    · have hlink := hlinkOf c
      rw [ThreadTree.linkOf?] at hlink
      obtain ⟨x, hx, -⟩ := Option.map_eq_some_iff.1 (hlink.symm.trans hc)
      simp [hlinkOf, hx]
  · rw [ThreadTree.bare?_erase rfl, replyIn?_erase hcleared, h.bare k t htree]
    split <;> rfl
  · rw [h.stored k t htree, starts_erase hcleared]
    grind [Starts]
  · rw [hclear, hroots, h.deleted, htree]
    simp
  · have hne : c ≠ m.id := by
      rintro rfl
      obtain ⟨hx, hthread⟩ := replyIn?_eq_some.1 hx
      grind
    have := hlinks c q hq (by simp [hx])
    simp [hne, this]

theorem isAbandoned_iff : g.isAbandoned k = true ↔
    ∃ t, g.threads[k]? = some t ∧ t.root ≠ .stored ∧ t.isEmpty = true := by
  rw [isAbandoned]
  cases g.threads[k]? <;> simp

/-- Dropping a tree of which nothing remains. -/
theorem Planted.dropTree (h : g.Planted links loose) (hk : g.isAbandoned k) :
    (g.dropTree k).Planted links loose := by
  obtain ⟨t, ht, hroot, hempty⟩ := isAbandoned_iff.1 hk
  have hget (q : MessageId) :
      (g.threads.erase k)[q]? = if k = q then none else g.threads[q]? := by
    simp [Std.ExtTreeMap.getElem?_erase]
  have hold {q : MessageId} {s : ThreadTree} (hq : (g.threads.erase k)[q]? = some s) :
      g.threads[q]? = some s := by
    rw [hget] at hq
    split at hq
    · cases hq
    · exact hq
  refine ⟨fun q s hq => h.tree_id q s (hold hq), fun q s hq => h.knit q s (hold hq),
    fun q s hq => h.bare q s (hold hq), fun q s hq => h.stored q s (hold hq), fun q => ?_,
    fun id m hm => ?_⟩
  · have hq := h.deleted q
    simp only [Board.dropTree, hget, Std.ExtTreeSet.mem_erase, ne_eq,
      Std.LawfulEqOrd.compare_eq_iff_eq]
    grind
  · replace hm : g.messages[id]? = some m := hm
    obtain ⟨s, hs⟩ := h.tree_of id m hm
    have hne : k ≠ m.thread.getD id := by
      rintro rfl
      cases hthread : m.thread with
      | none =>
        rw [hthread, Option.getD_none] at ht
        exact hroot ((h.stored id t ht).2 ⟨m, hm, hthread⟩)
      | some q =>
        rw [hthread, Option.getD_some] at ht
        have hnone := (h.isEmpty_iff ht).1 hempty id
        rw [replyIn?_eq_some.2 ⟨hm, hthread⟩] at hnone
        cases hnone
    exact ⟨s, by simpa [Board.dropTree, hget, hne] using hs⟩

/-! ## The index -/

theorem unnote_eq (g : Board) (m : Message) :
    g.unnote m = { g with repliesTo := (g.unnote m).repliesTo } := by
  rw [unnote]
  split <;> rfl

theorem repliesTo_unnote_congr (h : g'.repliesTo = g.repliesTo) :
    (g'.unnote m).repliesTo = (g.unnote m).repliesTo := by
  rw [unnote, unnote]
  cases m.thread <;> cases m.parent <;> simp [h]

/-- Taking a message out of the index goes with taking it away. -/
theorem Indexed.erase (h : g.Indexed) (hm : g.messages[m.id]? = some m) (hname : g'.name = g.name)
    (hmessages : g'.messages = g.messages.erase m.id)
    (hreplies : g'.repliesTo = (g.unnote m).repliesTo)
    (hinconsistent : g'.inconsistent = g.inconsistent.erase m.id) : g'.Indexed := by
  have hget {q : MessageId} {x : Message} : g'.messages[q]? = some x ↔
      q ≠ m.id ∧ g.messages[q]? = some x := by
    simp only [hmessages, Std.ExtTreeMap.getElem?_erase, Std.LawfulEqOrd.compare_eq_iff_eq]
    grind
  have hwaits (p c : MessageId) : g'.Waits p c ↔ (g.unnote m).Waits p c := by
    rw [Waits, Waits, hreplies]
  refine ⟨fun q x hx => h.keyed q x (hget.1 hx).2, fun q x hx => ?_,
    fun q x hx => h.no_self q x (hget.1 hx).2, fun p c => ?_, fun p ids hids => ?_, fun c => ?_⟩
  · rw [hname]
    exact h.targets q x (hget.1 hx).2
  · rw [hwaits, waits_unnote, h.waits]
    simp only [hget]
    grind
  · rw [hreplies] at hids
    exact h.noneIdle.unnote m p ids hids
  · rw [hinconsistent, Std.ExtTreeSet.mem_erase, h.inconsistent]
    simp only [hget, ne_eq, Std.LawfulEqOrd.compare_eq_iff_eq]
    grind

/-! ## A whole departure -/

/-- The board after `m` has left its place, before the replies that hung there are moved. -/
def cleared (g : Board) (m : Message) (tombstone : Bool) : Board :=
  let g := if m.isThread then g else (g.detach m.id).1
  let g := { g with messages := g.messages.erase m.id, inconsistent := g.inconsistent.erase m.id }
  ((g.unnote m).clearPlace m tombstone).1

/-- The board after all replies are moved, before an abandoned tree is dropped. -/
def rehung (g : Board) (m : Message) (tombstone : Bool) : Board :=
  let g' := g.cleared m tombstone
  ((g'.relocateAll (g'.waitingOn m.id)).1.relocateAll (g.releasedBy? m).toList).1

theorem removeStored_fst (g : Board) (m : Message) (tombstone : Bool) :
    (g.removeStored m tombstone).1 =
      if (g.rehung m tombstone).isAbandoned (treeKey m) then
        (g.rehung m tombstone).dropTree (treeKey m)
      else g.rehung m tombstone := by
  rw [rehung, ← elim_relocate]
  rfl

theorem regrown_cleared (g : Board) (m : Message) (tombstone : Bool) :
    Regrown (g.cleared m tombstone) (g.rehung m tombstone) :=
  (regrown_relocateAll _ _).trans (regrown_relocateAll _ _)

theorem clearPlace_eq (g : Board) (m : Message) (tombstone : Bool) :
    (g.clearPlace m tombstone).1 =
      { g with
          threads := (g.clearPlace m tombstone).1.threads
          deletedRoots := (g.clearPlace m tombstone).1.deletedRoots } := by
  rw [clearPlace]
  split
  · rw [clearRoot]
    split
    · rfl
    · split <;> rfl
  · rw [clearReply]
    split
    · rfl
    · split <;> rfl

theorem mem_threads_clearPlace (g : Board) (m : Message) (tombstone : Bool) :
    k ∈ (g.clearPlace m tombstone).1.threads ↔ k ∈ g.threads := by
  rw [clearPlace]
  split
  · rw [clearRoot]
    split
    · rfl
    · next t ht =>
      split <;> exact (regrown_insert ht _).mem_threads k
  · rw [clearReply]
    split
    · rfl
    · next t ht =>
      split
      · exact (regrown_insert ht _).mem_threads k
      · rfl

section Cleared

variable (g : Board) (m : Message) (tombstone : Bool)

theorem regrown_taken : Regrown g (if m.isThread then g else (g.detach m.id).1) := by
  split
  · exact .refl g
  · exact regrown_detach g m.id

theorem name_cleared : (g.cleared m tombstone).name = g.name := by
  rw [cleared, clearPlace_eq, unnote_eq]
  exact (regrown_taken g m).name

theorem messages_cleared : (g.cleared m tombstone).messages = g.messages.erase m.id := by
  rw [cleared, clearPlace_eq, unnote_eq]
  exact congrArg (·.erase m.id) (regrown_taken g m).messages

theorem repliesTo_cleared : (g.cleared m tombstone).repliesTo = (g.unnote m).repliesTo := by
  rw [cleared, clearPlace_eq]
  exact repliesTo_unnote_congr (regrown_taken g m).repliesTo

theorem inconsistent_cleared :
    (g.cleared m tombstone).inconsistent = g.inconsistent.erase m.id := by
  rw [cleared, clearPlace_eq, unnote_eq]
  exact congrArg (·.erase m.id) (regrown_taken g m).inconsistent

theorem mem_threads_cleared : k ∈ (g.cleared m tombstone).threads ↔ k ∈ g.threads := by
  rw [cleared, mem_threads_clearPlace, unnote_eq]
  exact (regrown_taken g m).mem_threads k

theorem name_removeStored : (g.removeStored m tombstone).1.name = g.name := by
  rw [removeStored_fst]
  split <;> exact (regrown_cleared g m tombstone).name.trans (name_cleared g m tombstone)

theorem messages_removeStored :
    (g.removeStored m tombstone).1.messages = g.messages.erase m.id := by
  rw [removeStored_fst]
  split <;> exact (regrown_cleared g m tombstone).messages.trans (messages_cleared g m tombstone)

/-- Clearing a place deletes its root where it says so. -/
theorem mem_deletedRoots_clearPlace : k ∈ (g.clearPlace m tombstone).1.deletedRoots ↔
    k ∈ g.deletedRoots ∨ ((g.clearPlace m tombstone).2 = true ∧ k = m.id) := by
  rw [clearPlace]
  split
  · rw [clearRoot]
    split
    · simp
    · split
      · simp [Std.ExtTreeSet.mem_insert, @eq_comm _ m.id, or_comm]
      · simp
  · rw [clearReply]
    split
    · simp
    · split <;> simp

theorem deletedRoots_cleared {k : MessageId} (hk : k ∈ (g.cleared m tombstone).deletedRoots) :
    k ∈ g.deletedRoots ∨ k = m.id := by
  rw [cleared, mem_deletedRoots_clearPlace, unnote_eq] at hk
  exact hk.imp (fun hk => (regrown_taken g m).deletedRoots ▸ hk) And.right

/-- A departure deletes no root but the message itself. -/
theorem deletedRoots_removeStored {k : MessageId}
    (hk : k ∈ (g.removeStored m tombstone).1.deletedRoots) : k ∈ g.deletedRoots ∨ k = m.id := by
  have hrehung : k ∈ (g.rehung m tombstone).deletedRoots := by
    rw [removeStored_fst] at hk
    split at hk
    · exact Std.ExtTreeSet.mem_of_mem_erase hk
    · exact hk
  rw [(regrown_cleared g m tombstone).deletedRoots] at hrehung
  exact deletedRoots_cleared g m tombstone hrehung

end Cleared

namespace Coherent

/-- The replies that have to be moved when a message leaves, itself apart. -/
theorem mem_waiting_cleared (h : g.Coherent) : c ∈ (g.cleared m tombstone).waitingOn m.id ↔
    (∃ x : Message, g.messages[c]? = some x ∧ x.RepliesTo m.id) ∧
      ¬ (c = m.id ∧ m.RepliesTo m.id) := by
  rw [mem_waitingOn, Waits, repliesTo_cleared, ← Waits, waits_unnote, h.waits]

theorem planted_cleared_root (h : g.Coherent) (hm : g.messages[m.id]? = some m)
    (ht : m.thread = none) : (g.cleared m tombstone).Planted g.home ∅ := by
  simp only [cleared, clearPlace, Message.isThread, ht, Option.isNone_none, if_true]
  refine h.planted.clearRoot hm ht ?_ ?_ ?_
  all_goals rw [unnote_eq]

theorem planted_cleared_reply (h : g.Coherent) (hm : g.messages[m.id]? = some m)
    (ht : m.thread = some k) :
    (g.cleared m tombstone).Planted g.home {c | g.home c = .node m.id} := by
  have hgrown := regrown_detach g m.id
  have hdetached := h.planted.detach m.id
  simp only [cleared, clearPlace, Message.isThread, ht, Option.isNone_some, Bool.false_eq_true,
    if_false]
  refine (hdetached.clearReply (hgrown.messages ▸ hm) ht (Set.mem_union_left ∅ rfl) ?_ ?_ ?_ ?_).congr
    fun c x q hx => ⟨rfl, by simp⟩
  · intro c q hq hc hhome
    obtain ⟨x, hx⟩ := Option.isSome_iff_exists.1 hc
    obtain ⟨hx, hthread⟩ := replyIn?_eq_some.1 hx
    rw [hgrown.messages] at hx
    have hparent := (parent_of_home_eq_node hx hthread hhome).2.2 m hm
    rw [ht] at hparent
    exact hq (Option.some.inj hparent).symm
  all_goals rw [unnote_eq]

/-- Once a message has left, what hung under it is loose. -/
theorem planted_cleared (h : g.Coherent) (hm : g.messages[m.id]? = some m) (tombstone : Bool) :
    (g.cleared m tombstone).Planted g.home {c | g.home c = .node m.id} := by
  cases ht : m.thread with
  | some k => exact h.planted_cleared_reply hm ht
  | none =>
    -- What names the root of a thread hangs under the root, and so does what names a foreign root.
    refine (h.planted_cleared_root hm ht).congr fun c x k hx => ⟨rfl, iff_of_false (fun hc => ?_) id⟩
    obtain ⟨hx, hk⟩ := replyIn?_eq_some.1 hx
    rw [messages_cleared, Std.ExtTreeMap.getElem?_erase] at hx
    split at hx
    · cases hx
    · have hthread := (parent_of_home_eq_node hx hk hc).2.2 m hm
      rw [ht] at hthread
      cases hthread

/-- In the end everything hangs where it belongs. -/
theorem planted_rehung (h : g.Coherent) (hm : g.messages[m.id]? = some m) :
    (g.rehung m tombstone).Planted (g.cleared m tombstone).home ∅ := by
  have hmessages := messages_cleared g m tombstone
  have hwaiting := (h.planted_cleared hm tombstone).relocateAll
    ((g.cleared m tombstone).waitingOn m.id)
  have hmoved := hwaiting.relocateAll (g.releasedBy? m).toList
  rw [settled_congr (regrown_relocateAll _ _).messages] at hmoved
  refine hmoved.congr fun c x k hx => ?_
  obtain ⟨hx, hk⟩ := replyIn?_eq_some.1 hx
  have hstored : c ≠ m.id ∧ g.messages[c]? = some x := by
    replace hx : (g.rehung m tombstone).messages[c]? = some x := hx
    rw [(regrown_cleared g m tombstone).messages, hmessages] at hx
    simp only [Std.ExtTreeMap.getElem?_erase, Std.LawfulEqOrd.compare_eq_iff_eq] at hx
    grind
  obtain ⟨hne, hx⟩ := hstored
  have hmem (hp : x.parent = some m.id) : c ∈ (g.cleared m tombstone).waitingOn m.id :=
    h.mem_waiting_cleared.2 ⟨⟨x, hx, by simp [hk], hp⟩, fun hc => hne hc.1⟩
  refine ⟨?_, iff_of_false id fun hc => hc.1.2 (hmem (parent_of_home_eq_node hx hk hc.1.1).1)⟩
  by_cases hb : c ∈ (g.releasedBy? m).toList
  · rw [settled_of_mem hb]
  rw [settled_of_not_mem hb]
  by_cases hc : c ∈ (g.cleared m tombstone).waitingOn m.id
  · rw [settled_of_mem hc]
  rw [settled_of_not_mem hc]
  refine home_erase hmessages h.keyed hm hx hk hne (fun hp => hc (hmem hp)) fun hbreaker => hb ?_
  have hparent : x.parent ≠ some m.id := fun hp => hc (hmem hp)
  simp [releasedBy?, Option.filter_eq_some_iff, hbreaker, hne, hx, hparent]

/-- A tree that is not abandoned has a message. -/
theorem exists_of_not_isAbandoned (h : g.Planted links loose) (hk : k ∈ g.threads)
    (hne : ¬ g.isAbandoned k = true) :
    ∃ (id : MessageId) (m : Message), g.messages[id]? = some m ∧ m.thread.getD id = k := by
  obtain ⟨t, ht⟩ := Option.isSome_iff_exists.1 (Std.ExtTreeMap.mem_iff_isSome_getElem?.1 hk)
  by_cases hroot : t.root = .stored
  · obtain ⟨m, hm, hthread⟩ := (h.stored k t ht).1 hroot
    exact ⟨k, m, hm, by simp [hthread]⟩
  · have hempty : ¬ t.isEmpty = true := fun he => hne (isAbandoned_iff.2 ⟨t, ht, hroot, he⟩)
    rw [h.isEmpty_iff ht] at hempty
    obtain ⟨id, hid⟩ := Classical.not_forall.1 hempty
    obtain ⟨m, hm⟩ := Option.ne_none_iff_exists'.1 hid
    obtain ⟨hm, hthread⟩ := replyIn?_eq_some.1 hm
    exact ⟨id, m, hm, by simp [hthread]⟩

theorem removeStored (h : g.Coherent) (hm : g.messages[m.id]? = some m) (tombstone : Bool) :
    (g.removeStored m tombstone).1.Coherent := by
  have hgrown := regrown_cleared g m tombstone
  have hmessages : (g.rehung m tombstone).messages = g.messages.erase m.id :=
    hgrown.messages.trans (messages_cleared g m tombstone)
  have hindexed : (g.rehung m tombstone).Indexed :=
    (h.toIndexed.erase hm (name_cleared g m tombstone) (messages_cleared g m tombstone)
      (repliesTo_cleared g m tombstone) (inconsistent_cleared g m tombstone)).of_regrown hgrown
  have hplanted : (g.rehung m tombstone).Planted (g.rehung m tombstone).home ∅ := by
    rw [home_congr hgrown.messages]
    exact h.planted_rehung hm
  -- A thread other than that of the message keeps all its messages.
  have hother (k : MessageId) (hk : k ∈ (g.rehung m tombstone).threads) (hne : treeKey m ≠ k) :
      ∃ (id : MessageId) (x : Message),
        (g.rehung m tombstone).messages[id]? = some x ∧ x.thread.getD id = k := by
    rw [hgrown.mem_threads, mem_threads_cleared] at hk
    obtain ⟨c, x, hx, rfl⟩ := h.populated k hk
    refine ⟨c, x, ?_, rfl⟩
    have hcm : m.id ≠ c := by
      rintro rfl
      rw [hm] at hx
      cases hx
      exact hne rfl
    simp [hmessages, Std.ExtTreeMap.getElem?_erase, hcm, hx]
  rw [removeStored_fst]
  split
  · next habandoned =>
    refine ⟨?_, hplanted.dropTree habandoned, fun k hk => ?_⟩
    · exact ⟨hindexed.keyed, hindexed.targets, hindexed.no_self, hindexed.waits,
        hindexed.noneIdle, hindexed.inconsistent⟩
    · simp only [dropTree, Std.ExtTreeMap.mem_erase, ne_eq, Std.LawfulEqOrd.compare_eq_iff_eq] at hk
      exact hother k hk.2 hk.1
  · next hkept =>
    refine ⟨hindexed, hplanted, fun k hk => ?_⟩
    by_cases hkey : treeKey m = k
    · subst hkey
      exact exists_of_not_isAbandoned hplanted hk hkept
    · exact hother k hk hkey

end Coherent

/-! ## Removals -/

/-- The board after the removal of the message with an id, if it is stored. -/
def removed (g : Board) (id : MessageId) (tombstone : Bool) : Board :=
  ((g.remove? id tombstone).map (·.1)).getD g

theorem removed_of_none (h : g.messages[id]? = none) : g.removed id tombstone = g := by
  simp [removed, remove?, h]

theorem removed_of_some (h : g.messages[id]? = some m) :
    g.removed id tombstone = (g.removeStored m tombstone).1 := by
  simp [removed, remove?, h]

theorem removeAll_fst (g : Board) (ids : List MessageId) :
    (g.removeAll ids).1 = ids.foldl (fun g id => g.removed id true) g := by
  refine (List.foldl_hom Prod.fst fun x id => ?_).symm
  rw [removed]
  cases hid : x.1.remove? id true <;> simp [hid]

theorem name_removed (g : Board) (id : MessageId) (tombstone : Bool) :
    (g.removed id tombstone).name = g.name := by
  cases hm : g.messages[id]? with
  | none => rw [removed_of_none hm]
  | some m => rw [removed_of_some hm, name_removeStored]

theorem messages_removed (h : Keyed g.messages) (id : MessageId) (tombstone : Bool) :
    (g.removed id tombstone).messages = g.messages.erase id := by
  cases hm : g.messages[id]? with
  | none =>
    rw [removed_of_none hm]
    refine Std.ExtTreeMap.ext_getElem? fun q => ?_
    rw [Std.ExtTreeMap.getElem?_erase]
    split
    · next he => rw [← Std.LawfulEqOrd.eq_of_compare he, hm]
    · rfl
  | some m => rw [removed_of_some hm, messages_removeStored, h id m hm]

theorem deletedRoots_removed (h : Keyed g.messages)
    (hk : k ∈ (g.removed id tombstone).deletedRoots) : k ∈ g.deletedRoots ∨ k = id := by
  cases hm : g.messages[id]? with
  | none =>
    rw [removed_of_none hm] at hk
    exact .inl hk
  | some m =>
    rw [removed_of_some hm] at hk
    exact h id m hm ▸ deletedRoots_removeStored g m tombstone hk

theorem Coherent.removed (h : g.Coherent) (id : MessageId) (tombstone : Bool) :
    (g.removed id tombstone).Coherent := by
  cases hm : g.messages[id]? with
  | none => rwa [removed_of_none hm]
  | some m =>
    rw [removed_of_some hm]
    obtain rfl := h.keyed id m hm
    exact h.removeStored hm tombstone

theorem messages_foldl_removed (h : Keyed g.messages) (ids : List MessageId) (q : MessageId) :
    (ids.foldl (fun g id => g.removed id true) g).messages[q]? =
      if q ∈ ids then none else g.messages[q]? := by
  induction ids generalizing g with
  | nil => simp
  | cons id ids ih =>
    have hmessages := messages_removed h id true
    rw [List.foldl_cons, ih (hmessages ▸ h.erase id), hmessages]
    simp only [Std.ExtTreeMap.getElem?_erase, Std.LawfulEqOrd.compare_eq_iff_eq, List.mem_cons]
    grind

/-- What several removals leave. -/
theorem Coherent.foldl_removed (h : g.Coherent) (ids : List MessageId) :
    let g' := ids.foldl (fun g id => g.removed id true) g
    g'.Coherent ∧ g'.name = g.name ∧
      (∀ q : MessageId, g'.messages[q]? = if q ∈ ids then none else g.messages[q]?) ∧
      ∀ k ∈ g'.deletedRoots, k ∈ g.deletedRoots ∨ k ∈ ids := by
  suffices hrest : let g' := ids.foldl (fun g id => g.removed id true) g
      g'.Coherent ∧ g'.name = g.name ∧ ∀ k ∈ g'.deletedRoots, k ∈ g.deletedRoots ∨ k ∈ ids from
    ⟨hrest.1, hrest.2.1, messages_foldl_removed h.keyed ids, hrest.2.2⟩
  induction ids generalizing g with
  | nil => exact ⟨h, rfl, fun k hk => .inl hk⟩
  | cons id ids ih =>
    obtain ⟨hcoherent, hname, hroots⟩ := ih (h.removed id true)
    refine ⟨hcoherent, hname.trans (name_removed g id true), fun k hk => ?_⟩
    rcases hroots k hk with hk | hk
    · rcases deletedRoots_removed h.keyed hk with hk | rfl
      · exact .inl hk
      · exact .inr List.mem_cons_self
    · exact .inr (List.mem_cons_of_mem _ hk)

theorem mem_authored {a : IdentityId} : id ∈ g.authored a ↔ id ∈ g.messages ∧ id.author = a := by
  rw [authored, List.mem_filter, Std.ExtTreeMap.mem_keys, beq_iff_eq]

theorem removeAuthor_fst (g : Board) (author : IdentityId) :
    (g.removeAuthor author).1 = (g.authored author).foldl (fun g id => g.removed id true) g :=
  removeAll_fst g (g.authored author)

theorem messages_removeAuthor (h : Keyed g.messages) (author : IdentityId) (q : MessageId) :
    (g.removeAuthor author).1.messages[q]? =
      if q.author = author then none else g.messages[q]? := by
  rw [removeAuthor_fst, messages_foldl_removed h]
  by_cases hq : q ∈ g.messages
  · simp [mem_authored, hq]
  · rw [Std.ExtTreeMap.getElem?_eq_none hq, ite_self, ite_self]

/-- Removing an author takes away all that the author wrote, and deletes no other root. -/
theorem Coherent.removeAuthor (h : g.Coherent) (author : IdentityId) :
    (g.removeAuthor author).1.Coherent ∧ (g.removeAuthor author).1.name = g.name ∧
      (∀ q : MessageId, (g.removeAuthor author).1.messages[q]? =
        if q.author = author then none else g.messages[q]?) ∧
      ∀ k : MessageId, k ∈ (g.removeAuthor author).1.deletedRoots →
        k ∈ g.deletedRoots ∨ k.author = author := by
  obtain ⟨hcoherent, hname, -, hroots⟩ := h.foldl_removed (g.authored author)
  refine ⟨?_, ?_, messages_removeAuthor h.keyed author, fun k hk => ?_⟩
  · rwa [removeAuthor_fst]
  · rwa [removeAuthor_fst]
  · rw [removeAuthor_fst] at hk
    exact (hroots k hk).imp_right fun hk => (mem_authored.1 hk).2

/-! ## Deleted roots -/

/-- The thread `k` has replies but no stored root. -/
def Rootless (g : Board) (k : MessageId) : Prop :=
  ¬ g.Starts k ∧ ∃ id m, g.replyIn? k id = some m

/-- Marking a root as deleted changes nothing, or the state of this root. -/
theorem markDeletedRoot_eq (h : g.Planted links loose) (k : MessageId) :
    (k ∉ g.deletedRoots ∧ g.Rootless k ∧ ∃ t, g.threads[k]? = some t ∧ (g.markDeletedRoot k).1 =
      { g with
          threads := g.threads.insert k { t with root := .deleted }
          deletedRoots := g.deletedRoots.insert k }) ∨
    ((k ∈ g.deletedRoots ∨ ¬ g.Rootless k) ∧ (g.markDeletedRoot k).1 = g) := by
  rw [markDeletedRoot]
  cases ht : g.threads[k]? with
  | none =>
    refine .inr ⟨.inr ?_, rfl⟩
    rintro ⟨-, id, m, hm⟩
    obtain ⟨hm, hk⟩ := replyIn?_eq_some.1 hm
    obtain ⟨t, ht'⟩ := h.tree_of id m hm
    rw [hk, Option.getD_some, ht] at ht'
    cases ht'
  | some t =>
    have hdeleted : k ∈ g.deletedRoots ↔ t.root = .deleted := by simp [h.deleted, ht]
    have hrootless : g.Rootless k ↔ t.root ≠ .stored ∧ ¬ t.isEmpty = true := by
      rw [Rootless, ← h.stored k t ht, h.isEmpty_iff ht, Classical.not_forall]
      simp [Option.ne_none_iff_exists']
    rw [hdeleted, hrootless]
    cases hroot : t.root <;> cases hempty : t.isEmpty <;> simp [hroot, hempty]

theorem mem_deletedRoots_markDeletedRoot (h : g.Planted links loose) (k q : MessageId) :
    q ∈ (g.markDeletedRoot k).1.deletedRoots ↔ q ∈ g.deletedRoots ∨ (q = k ∧ g.Rootless k) := by
  rcases markDeletedRoot_eq h k with ⟨hk, hrootless, t, -, he⟩ | ⟨hk, he⟩
  · rw [he, Std.ExtTreeSet.mem_insert, Std.LawfulEqOrd.compare_eq_iff_eq]
    grind
  · rw [he]
    grind

theorem Coherent.markDeletedRoot (h : g.Coherent) (k : MessageId) :
    (g.markDeletedRoot k).1.Coherent := by
  rcases markDeletedRoot_eq h.planted k with ⟨-, ⟨hstarts, -⟩, t, ht, he⟩ | ⟨-, he⟩
  · have hid : t.id = k := h.planted.tree_id k t ht
    have hagree : AgreeOutside k g (g.markDeletedRoot k).1 := by
      rw [he]
      refine ⟨fun _ _ _ => rfl, fun _ _ => Iff.rfl, fun q hq => ?_⟩
      simp [hq.symm]
    have hplanted : (g.markDeletedRoot k).1.Planted g.home ∅ := by
      have hthreads : (g.markDeletedRoot k).1.threads =
          g.threads.insert k { t with root := .deleted } := by rw [he]
      refine h.planted.replace hagree hthreads hid ((h.planted.knit k t ht).setRoot .deleted)
        ?_ ?_ ?_ fun _ _ _ _ _ => ⟨rfl, Iff.rfl⟩
      all_goals rw [he]
      · exact h.planted.bare k t ht
      · exact iff_of_false (by simp) hstarts
      · simp
    have hhome : (g.markDeletedRoot k).1.home = g.home := home_congr (by rw [he])
    refine ⟨?_, hhome ▸ hplanted, fun q hq => ?_⟩
    · rw [he]
      exact ⟨h.keyed, h.targets, h.no_self, h.waits, h.noneIdle, h.inconsistent⟩
    · rw [he] at hq ⊢
      have hq : q ∈ g.threads.insert k _ := hq
      exact h.populated q (((regrown_insert ht _).mem_threads q).1 hq)
  · rw [he]
    exact h

end Board

end Noticeboard
