import Noticeboard.Proofs.Board.View

/-!
# Looking up one item

Looking up one entry, counting its replies and asking whether one message is an absolute orphan give
the answers that the listings of a board give (`run_lookups`).

An id may be that of a stored reply and of a thread at once. A whole thread is looked for first, which
is right as long as an id stands for one content: then the id of a whole thread is that of its root,
stored or deleted, and no reply has it.
-/

namespace Noticeboard

namespace Board

variable {g : Board} {id : MessageId} {e : ThreadEntry} {n : Nat}

namespace Coherent

/-- What is found is listed. -/
theorem mem_of_entry (h : g.Coherent) (he : g.entry id = .ok e) : e ∈ g.entries ∧ e.id = id := by
  have hfound : g.wholeEntry? id = some e ∨ g.headedEntry? id = some e := by
    rw [entry] at he
    split at he
    · next e' hor =>
      cases he
      exact (Option.or_eq_some_iff.1 hor).imp_right And.right
    · cases he
  rcases hfound with hwhole | hheaded
  · obtain ⟨t, ht, hroot, rfl⟩ := wholeEntry?_eq_some_iff.1 hwhole
    have hid : t.id = id := h.planted.tree_id id t ht
    have htree : t ∈ g.trees := h.mem_trees.2 (hid ▸ ht)
    exact ⟨List.mem_flatMap.2 ⟨t, htree, mem_treeEntries.2 (.inl ⟨hroot, rfl⟩)⟩, hid⟩
  · obtain ⟨k, t, r, htreeOf, hroot, hr, hhead, horphan⟩ := headedEntry?_eq_some_iff.1 hheaded
    obtain ⟨-, -, -, ht⟩ := treeOf?_eq_some.1 htreeOf
    have htree : t ∈ g.trees := h.mem_trees.2 (h.planted.tree_id k t ht ▸ ht)
    have hentry := mem_treeEntries.2 (.inr ⟨hroot, id, r, hr, hhead, horphan⟩)
    refine ⟨List.mem_flatMap.2 ⟨t, htree, hentry⟩, ?_⟩
    obtain ⟨m, -, rfl⟩ := Option.map_eq_some_iff.1 horphan
    rfl

/-- The entries found are those listed. -/
theorem entry_eq_ok_iff (h : g.Coherent) (hroots : ∀ k ∈ g.deletedRoots, k ∉ g.messages) :
    g.entry id = .ok e ↔ e ∈ g.entries ∧ e.id = id := by
  refine ⟨h.mem_of_entry, ?_⟩
  rintro ⟨he, rfl⟩
  exact h.entry_of_mem hroots he

theorem replyCount_eq_ok_iff (h : g.Coherent) (hroots : ∀ k ∈ g.deletedRoots, k ∉ g.messages) :
    g.replyCount id = .ok n ↔ ∃ e ∈ g.entries, e.id = id ∧ e.replies.length = n := by
  have hcount : g.replyCount id = .ok n ↔ ∃ e, g.entry id = .ok e ∧ e.replies.length = n := by
    rw [replyCount]
    cases g.entry id <;> simp [Except.map, ThreadEntry.replyCount]
  simp only [hcount, h.entry_eq_ok_iff hroots, and_assoc]

/-- A message is an absolute orphan if it is inconsistent or its thread has never been seen, which is
how they are listed. -/
theorem isAbsoluteOrphan_iff (h : g.Coherent) :
    g.isAbsoluteOrphan id = true ↔ id ∈ g.absoluteOrphans := by
  have hlisted : (∃ t ∈ g.trees, t.root = .unknown ∧ id ∈ t.replies.map (·.1)) ↔
      ∃ k t, g.treeOf? id = some (k, t) ∧ t.root = .unknown := by
    constructor
    · rintro ⟨t, htree, hroot, hid⟩
      obtain ⟨⟨_, r⟩, hr, rfl⟩ := List.mem_map.1 hid
      have ht := h.mem_trees.1 htree
      obtain ⟨m, hm, hk⟩ := (h.exists_reply?_iff ht).1 ⟨r, ThreadTree.mem_replies.1 hr⟩
      exact ⟨t.id, t, treeOf?_eq_some.2 ⟨m, hm, hk, ht⟩, hroot⟩
    · rintro ⟨k, t, htreeOf, hroot⟩
      obtain ⟨m, hm, hk, ht⟩ := treeOf?_eq_some.1 htreeOf
      obtain ⟨r, hr⟩ := (h.exists_reply?_iff ht).2 ⟨m, hm, hk⟩
      have htree : t ∈ g.trees := h.mem_trees.2 (h.planted.tree_id k t ht ▸ ht)
      exact ⟨t, htree, hroot, List.mem_map.2 ⟨(id, r), ThreadTree.mem_replies.2 hr, rfl⟩⟩
  have hasked : (g.messages[id]?.bind (·.thread) |>.bind (g.threads[·]?)).any
      (·.root == .unknown) = true ↔ ∃ k t, g.treeOf? id = some (k, t) ∧ t.root = .unknown := by
    simp only [Option.any_eq_true, beq_iff_eq, Option.bind_eq_some_iff, treeOf?_eq_some]
    constructor
    · rintro ⟨t, ⟨k, ⟨m, hm, hk⟩, ht⟩, hroot⟩
      exact ⟨k, t, ⟨m, hm, hk, ht⟩, hroot⟩
    · rintro ⟨k, t, ⟨m, hm, hk, ht⟩, hroot⟩
      exact ⟨t, ⟨k, ⟨m, hm, hk⟩, ht⟩, hroot⟩
  rw [isAbsoluteOrphan, absoluteOrphans, mem_ofList, Bool.or_eq_true, hasked, ← hlisted,
    List.mem_append, List.mem_flatMap, or_comm]
  simp only [List.mem_filter, beq_iff_eq, and_assoc, Std.ExtTreeSet.mem_toList,
    Std.ExtTreeSet.contains_iff_mem]

end Coherent

/-- In every run in which an id stands for one content, looking up an id agrees with the listings: no
two entries have the same id, an entry is found by its id as it is listed and with its number of
replies, nothing else is found, and the absolute orphans are those that are listed. -/
theorem run_lookups (name : BoardName) {ops : List Op}
    (hops : ∀ op ∈ ops, op.Admissible ∧ op.IsTraffic) (hone : OneContent (delivered ops)) :
    let g := run name ops
    (g.entries.map (·.id)).Nodup ∧
      (∀ id e, g.entry id = .ok e ↔ e ∈ g.entries ∧ e.id = id) ∧
      (∀ id n, g.replyCount id = .ok n ↔ ∃ e ∈ g.entries, e.id = id ∧ e.replies.length = n) ∧
      ∀ id, g.isAbsoluteOrphan id = true ↔ id ∈ g.absoluteOrphans := by
  intro g
  have hg : g.Coherent := (coherent_run name fun op hop => (hops op hop).1).1
  have hroots : ∀ k ∈ g.deletedRoots, k ∉ g.messages := fun k =>
    (recorded_run name hops).not_mem_messages hg hone
  exact ⟨hg.nodup_ids hroots, fun id e => hg.entry_eq_ok_iff hroots,
    fun id n => hg.replyCount_eq_ok_iff hroots, fun id => hg.isAbsoluteOrphan_iff⟩

/-- A reply in a thread that the second of the ring would start, had it not been a reply. -/
def Ring.fourth : Message := .newReply (messageId 4) second.id second.id "" 9 {board}

/-- The root of the ring is deleted and found with its replies. The second of the ring is a reply and
the thread of an orphan, but no entry has its id. -/
theorem ring_lookups :
    let ops := Ring.ops ++ [.ingest Ring.fourth]
    let g := run Ring.board ops
    (∀ op ∈ ops, op.Admissible ∧ op.IsTraffic) ∧ OneContent (delivered ops) ∧
      g.entries.map (·.id) = [Ring.root.id, Ring.fourth.id] ∧
      g.replyCount Ring.root.id = .ok 2 ∧ (∀ e, g.entry Ring.second.id ≠ .ok e) ∧
      Ring.fourth.id ∈ g.absoluteOrphans := by
  intro ops g
  have hops : ∀ op ∈ ops, op.Admissible ∧ op.IsTraffic := by decide
  have hone : OneContent (delivered ops) := by decide +kernel
  obtain ⟨-, hentry, hcount, horphan⟩ := run_lookups Ring.board hops hone
  have hids : g.entries.map (·.id) = [Ring.root.id, Ring.fourth.id] := by decide +kernel
  refine ⟨hops, hone, hids, (hcount _ _).2 (by decide +kernel), fun e he => ?_,
    (horphan _).1 (by decide +kernel)⟩
  obtain ⟨hlisted, hid⟩ := (hentry _ _).1 he
  have hmem := List.mem_map_of_mem (f := ThreadEntry.id) hlisted
  rw [hids, hid] at hmem
  exact absurd hmem (by decide)

end Board

end Noticeboard
