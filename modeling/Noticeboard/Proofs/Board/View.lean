import Mathlib.Algebra.GroupWithZero.Nat
import Noticeboard.View
import Noticeboard.Proofs.Board.DeletedRoots
import Noticeboard.Proofs.Board.Partition
import Noticeboard.Proofs.Sorting

/-!
# Views

The three ways to look at a board agree (`run_views`): every entry with a visible message is listed
once, looking up what is listed finds the entry again, and the numbers of visible replies and heads
add up to that of all visible messages.

This rests on the ids of entries. An orphan is listed under its own id and a thread without a root
under that of the root, so two entries could have one id if a deleted root were stored as a reply.
It is not as long as an id stands for one content (`Recorded`).
-/

namespace Noticeboard

/-- No two of the messages have the same id and different content. -/
def OneContent (ms : List Message) : Prop :=
  ∀ m ∈ ms, ∀ m' ∈ ms, m.id = m'.id → m.sameContent m' = true

instance (ms : List Message) : Decidable (OneContent ms) :=
  inferInstanceAs (Decidable (∀ m ∈ ms, ∀ m' ∈ ms, _))

theorem Message.thread_eq_of_sameContent {m m' : Message} (h : m.sameContent m' = true) :
    m.thread = m'.thread := by
  rw [sameContent, decide_eq_true_eq] at h
  rw [← h]

/-! ## Orders -/

instance : Std.LawfulOrderMax Timestamp where
  max_le_iff a b c := by
    show (if a ≤ b then b else a) ≤ c ↔ a ≤ c ∧ b ≤ c
    simp only [UInt64.le_iff_toNat_le]
    split <;> omega
  max_eq_or a b := by
    show (if a ≤ b then b else a) = a ∨ (if a ≤ b then b else a) = b
    split
    · exact .inr rfl
    · exact .inl rfl

/-- Later activity comes first, and of equally late threads the one with the lower id. -/
def ThreadLink.Before (a b : ThreadLink) : Prop :=
  b.lastActivity < a.lastActivity ∨
    (a.lastActivity = b.lastActivity ∧ compare a.thread b.thread = .lt)

/-- The earlier message comes first, and of equally old messages the one with the lower id. -/
def Message.Before (a b : Message) : Prop :=
  a.created < b.created ∨ (a.created = b.created ∧ compare a.id b.id = .lt)

theorem ThreadLink.before_of_listedBefore {a b : ThreadLink} (h : a.listedBefore b = true)
    (hne : a.thread ≠ b.thread) : a.Before b := by
  have h : ((compare b.lastActivity a.lastActivity).then (compare a.thread b.thread)).isLE := h
  exact (lt_or_lt_of_isLE_then h hne).imp Std.compare_eq_lt.1 (And.imp_left Eq.symm)

namespace Board

variable {g : Board} {m : Message} {id k : MessageId} {ms : List Message} {trust : Trust}
  {viewer : IdentityId} {e : ThreadEntry} {l : ThreadLink}

/-! ## Deleted roots are not stored -/

/-- The message that an operation delivers. -/
def Op.message? : Op → Option Message
  | .ingest m => some m
  | _ => none

/-- The messages that some operations deliver. -/
def delivered (ops : List Op) : List Message := ops.filterMap Op.message?

/-- Messages arrive and leave. Roots are marked as deleted only when a board is rebuilt. -/
def Op.IsTraffic : Op → Prop
  | .markDeletedRoot _ => False
  | _ => True

instance : DecidablePred Op.IsTraffic
  | .markDeletedRoot _ => isFalse not_false
  | .ingest _ | .remove .. | .removeAuthor _ => isTrue trivial

/-- What is stored is among some messages, and deleted roots started a thread there. -/
structure Recorded (g : Board) (ms : List Message) : Prop where
  stored : ∀ (id : MessageId) (m : Message), g.messages[id]? = some m → m ∈ ms
  roots : ∀ k ∈ g.deletedRoots, ∃ m ∈ ms, m.id = k ∧ m.thread = none

namespace Recorded

/-- Removals may delete roots that are stored. -/
theorem of_removal {g' : Board} (h : g.Recorded ms) (hg : g.Coherent)
    (hmessages : ∀ (q : MessageId) (x : Message), g'.messages[q]? = some x →
      g.messages[q]? = some x)
    (hroots : ∀ k ∈ g'.deletedRoots, k ∈ g.deletedRoots ∨ g.Starts k) : g'.Recorded ms := by
  refine ⟨fun q x hx => h.stored q x (hmessages q x hx), fun k hk => ?_⟩
  rcases hroots k hk with hk | ⟨m, hm, hthread⟩
  · exact h.roots k hk
  · exact ⟨m, h.stored k m hm, hg.keyed k m hm, hthread⟩

theorem apply (h : g.Recorded ms) (hg : g.Coherent) {op : Op} (hop : op.IsTraffic)
    (hms : ∀ m, op.message? = some m → m ∈ ms) : (g.apply op).Recorded ms := by
  cases op with
  | ingest m =>
    refine ⟨fun q x hx => ?_, fun k hk => h.roots k (deletedRoots_ingested hk)⟩
    rcases of_messages_ingested hx with hx | rfl
    · exact h.stored q x hx
    · exact hms x rfl
  | remove id tombstone =>
    refine h.of_removal hg (fun q x hx => ?_) fun k hk => ?_
    · rw [Board.apply, messages_removed hg.keyed, Std.ExtTreeMap.getElem?_erase] at hx
      split at hx
      · cases hx
      · exact hx
    · exact ((hg.mem_deletedRoots_removed id tombstone).1 hk).1.imp_right fun hk => hk.2.2
  | removeAuthor author =>
    refine h.of_removal hg (fun q x hx => ?_) fun k hk => ?_
    · rw [Board.apply, (hg.removeAuthor author).2.2.1] at hx
      split at hx
      · cases hx
      · exact hx
    · exact ((hg.mem_deletedRoots_removeAuthor author).1 hk).1.imp_right fun hk => hk.2
  | markDeletedRoot => exact hop.elim

/-- A deleted root is not stored, as a reply no more than as a root. -/
theorem not_mem_messages (h : g.Recorded ms) (hg : g.Coherent) (hone : OneContent ms)
    (hk : k ∈ g.deletedRoots) : k ∉ g.messages := by
  intro hstored
  obtain ⟨x, hx⟩ := mem_iff_getElem?.1 hstored
  obtain ⟨m, hm, rfl, hthread⟩ := h.roots k hk
  have hcontent := hone x (h.stored m.id x hx) m hm (hg.keyed m.id x hx)
  have hroot := Message.thread_eq_of_sameContent hcontent
  exact (hg.rootless_of_mem hk).1 ⟨x, hx, hroot.trans hthread⟩

end Recorded

theorem recorded_run (name : BoardName) {ops : List Op}
    (hops : ∀ op ∈ ops, op.Admissible ∧ op.IsTraffic) :
    (run name ops).Recorded (delivered ops) := by
  suffices ∀ ms : List Message, (∀ op ∈ ops, ∀ m, op.message? = some m → m ∈ ms) →
      ∀ g : Board, g.Coherent → g.Recorded ms → (ops.foldl Board.apply g).Recorded ms by
    refine this _ (fun op hop m hm => List.mem_filterMap.2 ⟨op, hop, hm⟩) _ (coherent_empty name)
      ⟨fun q x hx => ?_, fun k hk => ?_⟩
    · simp [empty] at hx
    · simp [empty] at hk
  intro ms hms
  induction ops with
  | nil => exact fun g _ h => h
  | cons op ops ih =>
    obtain ⟨⟨hop, htraffic⟩, hops⟩ := List.forall_mem_cons.1 hops
    obtain ⟨hfirst, hms⟩ := List.forall_mem_cons.1 hms
    exact fun g hg h => ih hops hms (g.apply op) (hg.apply hop) (h.apply hg htraffic hfirst)

/-! ## Looking up an entry -/

theorem mem_treeEntries {t : ThreadTree} : e ∈ g.treeEntries t ↔
    (t.root ≠ .unknown ∧ e = g.wholeEntry t) ∨ (t.root = .unknown ∧
      ∃ id r, t.reply? id = some r ∧ t.headsEntry r = true ∧ g.orphanEntry? t id = some e) := by
  rw [treeEntries]
  split
  · next hroot =>
    have hunknown : t.root = .unknown := by simpa using hroot
    simp only [hunknown, ne_eq, not_true_eq_false, false_and, false_or, true_and,
      List.mem_filterMap, List.mem_filter, Prod.exists, ThreadTree.mem_replies, and_assoc]
  · next hroot =>
    have hknown : t.root ≠ .unknown := by simpa using hroot
    simp only [hknown, ne_eq, not_false_eq_true, true_and, false_and, or_false,
      List.mem_singleton]

theorem wholeEntry?_eq_some_iff : g.wholeEntry? id = some e ↔
    ∃ t, g.threads[id]? = some t ∧ t.root ≠ .unknown ∧ e = g.wholeEntry t := by
  simp only [Option.map_eq_some_iff, wholeEntry?, Option.filter_eq_some_iff, and_assoc,
    bne_iff_ne, @eq_comm _ e]

theorem headedEntry?_eq_some_iff : g.headedEntry? id = some e ↔
    ∃ k t r, g.treeOf? id = some (k, t) ∧ t.root = .unknown ∧ t.reply? id = some r ∧
      t.headsEntry r = true ∧ g.orphanEntry? t id = some e := by
  simp only [Option.bind_eq_some_iff, headedEntry?, Option.ite_none_right_eq_some,
    Option.filter_eq_some_iff, beq_iff_eq, Prod.exists, and_assoc]
  exact exists₂_congr fun k t => by simp only [exists_and_left]

namespace Coherent

/-- Looking up the id of an entry finds it. -/
theorem entry_of_mem (h : g.Coherent) (hroots : ∀ k ∈ g.deletedRoots, k ∉ g.messages)
    (he : e ∈ g.entries) : g.entry e.id = .ok e := by
  obtain ⟨t, htree, he⟩ := List.mem_flatMap.1 he
  have ht := h.mem_trees.1 htree
  rcases mem_treeEntries.1 he with ⟨hroot, rfl⟩ | ⟨hroot, id, r, hr, hhead, horphan⟩
  · have hwhole : g.wholeEntry? (g.wholeEntry t).id = some (g.wholeEntry t) :=
      wholeEntry?_eq_some_iff.2 ⟨t, ht, hroot, rfl⟩
    rw [entry, hwhole, Option.some_or]
  · obtain ⟨m, hm, hthread, -⟩ := h.stored_of_reply? ht hr
    obtain rfl : e.id = id := by
      obtain ⟨x, -, rfl⟩ := Option.map_eq_some_iff.1 horphan
      rfl
    -- The id of the head is that of a stored reply, so no whole thread is found under it.
    have hnone : g.wholeEntry? e.id = none := by
      refine Option.eq_none_iff_forall_ne_some.2 fun e' he' => ?_
      obtain ⟨t', ht', hknown, -⟩ := wholeEntry?_eq_some_iff.1 he'
      have hdepicts := h.depicts ht'
      cases hroot' : t'.root with
      | unknown => exact hknown hroot'
      | deleted => exact hroots _ (hdepicts.root_deleted.1 hroot') (mem_iff_getElem?.2 ⟨m, hm⟩)
      | stored =>
        obtain ⟨x, hx, hstart⟩ := hdepicts.root_stored.1 hroot'
        rw [hm] at hx
        cases hx
        rw [hthread] at hstart
        cases hstart
    have hheaded : g.headedEntry? e.id = some e :=
      headedEntry?_eq_some_iff.2
        ⟨t.id, t, r, treeOf?_eq_some.2 ⟨m, hm, hthread, ht⟩, hroot, hr, hhead, horphan⟩
    rw [entry, hnone, hheaded, Option.none_or]

/-- Entries have no message in common. -/
theorem pairwise_entries (h : g.Coherent) :
    g.entries.Pairwise fun e e' => e.messages.Disjoint e'.messages :=
  (List.nodup_flatMap.1 h.entries_partition.1).2

/-- Every entry holds a message. -/
theorem exists_mem_messages (h : g.Coherent) (he : e ∈ g.entries) : ∃ m, m ∈ e.messages := by
  obtain ⟨t, htree, he⟩ := List.mem_flatMap.1 he
  have ht := h.mem_trees.1 htree
  rcases mem_treeEntries.1 he with ⟨hroot, rfl⟩ | ⟨-, id, r, -, -, horphan⟩
  · obtain ⟨id, m, hm, hkey⟩ := h.populated t.id (mem_iff_getElem?.2 ⟨t, ht⟩)
    obtain rfl := h.keyed id m hm
    rw [messages_wholeEntry_of_known g hroot]
    exact ⟨m, (mem_pick h.keyed).2 ⟨(h.mem_listed ht).2 ⟨m, hm, hkey⟩, hm⟩⟩
  · obtain ⟨m, -, rfl⟩ := Option.map_eq_some_iff.1 horphan
    exact ⟨m, List.mem_cons_self⟩

/-- Entries that share an id are the same, and no two entries share a message. -/
theorem nodup_ids (h : g.Coherent) (hroots : ∀ k ∈ g.deletedRoots, k ∉ g.messages) :
    (g.entries.map (·.id)).Nodup := by
  refine List.pairwise_map.2 ?_
  refine h.pairwise_entries.imp_of_mem fun {e e'} he he' hdisjoint hid => ?_
  have hentry := h.entry_of_mem hroots he
  rw [hid, h.entry_of_mem hroots he'] at hentry
  obtain rfl := Except.ok.inj hentry
  obtain ⟨m, hm⟩ := h.exists_mem_messages he
  exact hdisjoint hm hm

end Coherent

/-! ## Links -/

/-- A link shows an entry to a viewer. -/
structure Shows (g : Board) (trust : Trust) (viewer : IdentityId) (e : ThreadEntry)
    (l : ThreadLink) : Prop where
  board : l.board = g.name
  thread : l.thread = e.id
  kind : l.kind = e.kind
  head : l.head = e.head.filter (isVisible trust viewer)
  /-- The last activity is the date of a visible message. -/
  active : ∃ m ∈ e.messages, isVisible trust viewer m = true ∧ m.created = l.lastActivity
  latest : ∀ m ∈ e.messages, isVisible trust viewer m = true → m.created ≤ l.lastActivity
  visibleReplies : l.visibleReplies = e.replies.countP (isVisible trust viewer)

theorem link?_eq_some_iff : g.link? trust viewer e = some l ↔ g.Shows trust viewer e l := by
  have hdate : ((e.messages.filter (isVisible trust viewer)).map (·.created)).max? =
      some l.lastActivity ↔
        (∃ m ∈ e.messages, isVisible trust viewer m = true ∧ m.created = l.lastActivity) ∧
          ∀ m ∈ e.messages, isVisible trust viewer m = true → m.created ≤ l.lastActivity := by
    rw [List.max?_eq_some_iff, List.forall_mem_map]
    simp only [List.mem_map, List.mem_filter, and_assoc, and_imp]
  constructor
  · intro h
    obtain ⟨d, hd, rfl⟩ := Option.map_eq_some_iff.1 h
    obtain ⟨hactive, hlatest⟩ := hdate.1 hd
    exact ⟨rfl, rfl, rfl, rfl, hactive, hlatest, rfl⟩
  · intro h
    refine Option.map_eq_some_iff.2 ⟨l.lastActivity, hdate.2 ⟨h.active, h.latest⟩, ?_⟩
    rw [← h.board, ← h.thread, ← h.kind, ← h.head, ← h.visibleReplies]

theorem exists_shows (h : ∃ m ∈ e.messages, isVisible trust viewer m = true) :
    ∃ l, g.Shows trust viewer e l := by
  obtain ⟨m, hm, hvisible⟩ := h
  have hne : (e.messages.filter (isVisible trust viewer)).map (·.created) ≠ [] := by
    intro hnil
    have := List.mem_filter.2 ⟨hm, hvisible⟩
    rw [List.map_eq_nil_iff.1 hnil] at this
    cases this
  obtain ⟨d, hd⟩ := Option.isSome_iff_exists.1 (List.isSome_max?_of_ne_nil hne)
  have hlink : (g.link? trust viewer e).isSome = true := by
    rw [link?, hd, Option.map_some, Option.isSome_some]
  obtain ⟨l, hl⟩ := Option.isSome_iff_exists.1 hlink
  exact ⟨l, link?_eq_some_iff.1 hl⟩

theorem mem_threadLinks :
    l ∈ g.threadLinks trust viewer ↔ ∃ e ∈ g.entries, g.Shows trust viewer e l := by
  simp only [threadLinks, List.mem_mergeSort, List.mem_filterMap, link?_eq_some_iff]

/-! ## The list of threads -/

namespace Coherent

/-- A link has the id of its entry. -/
theorem nodup_threads (h : g.Coherent) (hroots : ∀ k ∈ g.deletedRoots, k ∉ g.messages)
    (trust : Trust) (viewer : IdentityId) :
    ((g.threadLinks trust viewer).map (·.thread)).Nodup := by
  have hlinks : ((g.entries.filterMap (g.link? trust viewer)).map (·.thread)).Nodup := by
    refine List.pairwise_map.2 (List.pairwise_filterMap.2 ?_)
    refine (List.pairwise_map.1 (h.nodup_ids hroots)).imp fun {e e'} hne l hl l' hl' => ?_
    rw [(link?_eq_some_iff.1 hl).thread, (link?_eq_some_iff.1 hl').thread]
    exact hne
  exact ((List.mergeSort_perm _ _).map _).nodup_iff.2 hlinks

theorem pairwise_threadLinks (h : g.Coherent) (hroots : ∀ k ∈ g.deletedRoots, k ∉ g.messages)
    (trust : Trust) (viewer : IdentityId) :
    (g.threadLinks trust viewer).Pairwise ThreadLink.Before := by
  have hlatest : Std.TransCmp fun a b : ThreadLink => compare b.lastActivity a.lastActivity :=
    inferInstanceAs (Std.TransCmp fun a b => compareOn ThreadLink.lastActivity b a)
  have hsorted : (g.threadLinks trust viewer).Pairwise fun a b => a.listedBefore b = true :=
    pairwise_mergeSort_cmp _ _
  have hdistinct := List.pairwise_map.1 (h.nodup_threads hroots trust viewer)
  exact hsorted.imp₂ (fun a b => ThreadLink.before_of_listedBefore) hdistinct

/-! ## The replies of a thread -/

theorem nodup_replies_of_mem (h : g.Coherent) (he : e ∈ g.entries) :
    (e.replies.map (·.id)).Nodup := by
  have hmessages := (List.nodup_flatMap.1 h.entries_partition.1).1 e he
  have hreplies : e.replies.Nodup := (List.nodup_append'.1 hmessages).2.1
  have hstored (m : Message) (hm : m ∈ e.replies) : g.messages[m.id]? = some m :=
    (h.entries_partition.2 m).1 (List.mem_flatMap.2 ⟨e, he, List.mem_append_right _ hm⟩)
  refine List.pairwise_map.2 (hreplies.imp_of_mem fun {a b} ha hb hne hid => hne ?_)
  have hsame := hstored a ha
  rw [hid, hstored b hb] at hsame
  exact (Option.some.inj hsame).symm

/-- What is listed is found again with its visible replies. -/
theorem replyLinks_of_shows (h : g.Coherent) (hroots : ∀ k ∈ g.deletedRoots, k ∉ g.messages)
    (he : e ∈ g.entries) (hl : g.Shows trust viewer e l) :
    ∃ rs, g.replyLinks trust viewer l.thread = .ok rs ∧ rs.length = l.visibleReplies ∧
      (∀ r ∈ rs, r.board = g.name ∧ r.thread = l.thread ∧ r.message ∈ e.replies ∧
        isVisible trust viewer r.message = true) ∧
      (rs.map (·.message)).Pairwise Message.Before := by
  obtain ⟨ms, hms⟩ : ∃ ms, ms =
      (e.replies.filter (isVisible trust viewer)).mergeSort writtenBefore := ⟨_, rfl⟩
  have hperm : ms.Perm (e.replies.filter (isVisible trust viewer)) :=
    hms ▸ List.mergeSort_perm _ _
  refine ⟨ms.map fun m => { board := g.name, thread := e.id, message := m }, ?_, ?_, ?_, ?_⟩
  · rw [replyLinks, hl.thread, h.entry_of_mem hroots he, hms]
  · rw [List.length_map, hperm.length_eq, hl.visibleReplies, List.countP_eq_length_filter]
  · intro r hr
    obtain ⟨m, hm, rfl⟩ := List.mem_map.1 hr
    obtain ⟨hm, hvisible⟩ := List.mem_filter.1 (hperm.mem_iff.1 hm)
    exact ⟨rfl, hl.thread.symm, hm, hvisible⟩
  · rw [List.map_map]
    have hids : ((e.replies.filter (isVisible trust viewer)).map (·.id)).Nodup :=
      (h.nodup_replies_of_mem he).sublist (List.filter_sublist.map _)
    have hsorted := pairwise_mergeSort_keys (f := Message.created) hids
    refine List.pairwise_map.2 (hms ▸ hsorted.imp fun hab => ?_)
    exact hab.imp_left Std.compare_eq_lt.1

/-! ## The number of visible messages -/

theorem nodup_storedMessages (h : g.Coherent) : g.storedMessages.Nodup := by
  refine List.pairwise_map.2 (Std.ExtTreeMap.distinct_keys_toList.imp_of_mem ?_)
  rintro ⟨a, x⟩ ⟨b, y⟩ ha hb hne rfl
  have hx := h.keyed a x (Std.ExtTreeMap.mem_toList_iff_getElem?_eq_some.1 ha)
  have hy := h.keyed b x (Std.ExtTreeMap.mem_toList_iff_getElem?_eq_some.1 hb)
  exact hne (Std.LawfulEqOrd.compare_eq_iff_eq.2 (hx.symm.trans hy))

theorem perm_storedMessages (h : g.Coherent) :
    g.storedMessages.Perm (g.entries.flatMap (·.messages)) := by
  refine (List.perm_ext_iff_of_nodup h.nodup_storedMessages h.entries_partition.1).2 fun m => ?_
  rw [mem_storedMessages h.keyed, h.entries_partition.2]

end Coherent

/-- An entry that is listed has as many visible messages as its link counts. -/
theorem Shows.countP_messages (h : g.Shows trust viewer e l) :
    e.messages.countP (isVisible trust viewer) =
      l.visibleReplies + if l.head.isSome then 1 else 0 := by
  rw [ThreadEntry.messages, List.countP_append, ← h.visibleReplies, h.head, Nat.add_comm]
  cases e.head with
  | none => rfl
  | some m => cases hm : isVisible trust viewer m <;> simp [hm]

/-- An entry that is not listed has no visible message. -/
theorem countP_messages_of_unlinked (h : g.link? trust viewer e = none) :
    e.messages.countP (isVisible trust viewer) = 0 := by
  refine List.countP_eq_zero.2 fun m hm hvisible => ?_
  obtain ⟨l, hl⟩ := exists_shows (g := g) ⟨m, hm, hvisible⟩
  rw [link?_eq_some_iff.2 hl] at h
  cases h

theorem countP_flatMap_messages (g : Board) (trust : Trust) (viewer : IdentityId)
    (es : List ThreadEntry) :
    (es.flatMap (·.messages)).countP (isVisible trust viewer) =
      ((es.filterMap (g.link? trust viewer)).map (·.visibleReplies)).sum +
        (es.filterMap (g.link? trust viewer)).countP (·.head.isSome) := by
  induction es with
  | nil => rfl
  | cons e es ih =>
    rw [List.flatMap_cons, List.countP_append, ih]
    cases hl : g.link? trust viewer e with
    | none => rw [countP_messages_of_unlinked hl, List.filterMap_cons_none hl, Nat.zero_add]
    | some l =>
      rw [List.filterMap_cons_some hl, (link?_eq_some_iff.1 hl).countP_messages, List.map_cons,
        List.sum_cons, List.countP_cons]
      omega

theorem Coherent.visibleCount_eq (h : g.Coherent) (trust : Trust) (viewer : IdentityId) :
    g.visibleCount trust viewer =
      ((g.threadLinks trust viewer).map (·.visibleReplies)).sum +
        (g.threadLinks trust viewer).countP (·.head.isSome) := by
  have hperm : (g.threadLinks trust viewer).Perm (g.entries.filterMap (g.link? trust viewer)) :=
    List.mergeSort_perm _ _
  rw [visibleCount, h.perm_storedMessages.countP_eq, countP_flatMap_messages g,
    (hperm.map _).sum_nat, hperm.countP_eq]

/-! ## Views of a run -/

/-- In every run in which an id stands for one content, and for every viewer: the threads listed are
those with a visible message, each once, latest activity first; the replies of each are found, as many
as the list says, oldest first; and visible replies and heads make up all visible messages. -/
theorem run_views (name : BoardName) {ops : List Op}
    (hops : ∀ op ∈ ops, op.Admissible ∧ op.IsTraffic) (hone : OneContent (delivered ops))
    (trust : Trust) (viewer : IdentityId) :
    let g := run name ops
    let links := g.threadLinks trust viewer
    (links.map (·.thread)).Nodup ∧ links.Pairwise ThreadLink.Before ∧
      (∀ e ∈ g.entries, (∃ m ∈ e.messages, isVisible trust viewer m = true) →
        ∃ l ∈ links, g.Shows trust viewer e l) ∧
      (∀ l ∈ links, ∃ e ∈ g.entries, g.Shows trust viewer e l ∧
        ∃ rs, g.replyLinks trust viewer l.thread = .ok rs ∧ rs.length = l.visibleReplies ∧
          (∀ r ∈ rs, r.board = g.name ∧ r.thread = l.thread ∧ r.message ∈ e.replies ∧
            isVisible trust viewer r.message = true) ∧
          (rs.map (·.message)).Pairwise Message.Before) ∧
      g.visibleCount trust viewer =
        (links.map (·.visibleReplies)).sum + links.countP (·.head.isSome) := by
  intro g links
  have hg : g.Coherent := (coherent_run name fun op hop => (hops op hop).1).1
  have hroots : ∀ k ∈ g.deletedRoots, k ∉ g.messages := fun k =>
    (recorded_run name hops).not_mem_messages hg hone
  refine ⟨hg.nodup_threads hroots trust viewer, hg.pairwise_threadLinks hroots trust viewer,
    fun e he hvisible => ?_, fun l hl => ?_, hg.visibleCount_eq trust viewer⟩
  · obtain ⟨l, hl⟩ := exists_shows (g := g) hvisible
    exact ⟨l, mem_threadLinks.2 ⟨e, he, hl⟩, hl⟩
  · obtain ⟨e, he, hshows⟩ := mem_threadLinks.1 hl
    exact ⟨e, he, hshows, hg.replyLinks_of_shows hroots he hshows⟩

/-- The root of the ring is gone and one of its two replies is hidden: the thread is listed without a
head and with one reply. -/
theorem ring_views :
    let viewer : IdentityId := ⟨.ofNat 256 9⟩
    let trust : Trust := fun _ author => author != Ring.first.author
    let g := run Ring.board Ring.ops
    let links := g.threadLinks trust viewer
    (∀ op ∈ Ring.ops, op.Admissible ∧ op.IsTraffic) ∧ OneContent (delivered Ring.ops) ∧
      links = [⟨Ring.board, Ring.root.id, .rootless, none, 7, 1⟩] ∧
      g.visibleCount trust viewer =
        (links.map (·.visibleReplies)).sum + links.countP (·.head.isSome) := by
  intro viewer trust g links
  have hops : ∀ op ∈ Ring.ops, op.Admissible ∧ op.IsTraffic := by decide
  have hone : OneContent (delivered Ring.ops) := by decide +kernel
  exact ⟨hops, hone, by decide +kernel, (run_views Ring.board hops hone trust viewer).2.2.2.2⟩

end Board

end Noticeboard
