import Noticeboard.Proofs.Board.Partition

/-!
# What a board misses

A coherent board waits for nothing but what its messages refer to. A ghost stands in the tree of a
thread for every parent that a reply of the thread names and that is not stored
(`Coherent.exists_ghost?_iff`), and the root of a tree has never been seen if replies of the thread
are stored while the root is neither stored nor deleted (`Coherent.exists_unknown_iff`).
-/

namespace Noticeboard

namespace ThreadTree

variable {t : ThreadTree} {x : MessageId}

theorem mem_ghosts : x ∈ t.ghosts ↔ ∃ gh, t.ghost? x = some gh := by
  simp only [ghosts, ghost?, List.mem_filterMap, Prod.exists, Option.ite_none_right_eq_some,
    Option.some.injEq, Std.ExtTreeMap.mem_toList_iff_getElem?_eq_some, Option.bind_eq_some_iff]
  constructor
  · rintro ⟨x, _ | gh, hslot, hghost, rfl⟩
    · cases hghost
    · exact ⟨gh, _, hslot, rfl⟩
  · rintro ⟨gh, _ | gh', hslot, hghost⟩
    · cases hghost
    · exact ⟨x, _, hslot, rfl, rfl⟩

end ThreadTree

namespace Board

variable {g : Board} {k p x : MessageId}

/-- A stored reply in the thread `k` names `p` as its parent, which is not the thread and not
stored. -/
def MissesParent (g : Board) (k p : MessageId) : Prop :=
  p ≠ k ∧ p ∉ g.messages ∧ ∃ (id : MessageId) (m : Message),
    g.messages[id]? = some m ∧ m.thread = some k ∧ m.parent = some p

/-- Replies in the thread `k` are stored, while its root is neither stored nor deleted. -/
def MissesRoot (g : Board) (k : MessageId) : Prop :=
  ¬ g.Starts k ∧ k ∉ g.deletedRoots ∧ ∃ (id : MessageId) (m : Message),
    g.messages[id]? = some m ∧ m.thread = some k

namespace Coherent

/-- The ghosts of a tree stand for the parents that its replies miss. -/
theorem exists_ghost?_iff (h : g.Coherent) :
    (∃ t gh, g.threads[k]? = some t ∧ t.ghost? p = some gh) ↔ g.MissesParent k p := by
  constructor
  · rintro ⟨t, gh, ht, hgh⟩
    obtain ⟨hnone, -, c, hc, -⟩ := h.missed_of_ghost? ht hgh
    have hslot := ThreadTree.ghost?_eq_some_iff.1 hgh
    obtain ⟨r, hr, hparent⟩ := ((h.depicts ht).children p _ hslot c).1 hc
    obtain ⟨m, hm, hk, -, -, hplace⟩ := h.stored_of_reply? ht hr
    obtain rfl := h.keyed c m hm
    obtain ⟨hnames, hne, -⟩ :=
      (placement_eq_node_iff h.keyed hm hk).1 (hplace.symm.trans hparent)
    exact ⟨hne, by simpa using hnone, m.id, m, hm, hk, hnames⟩
  · rintro ⟨hne, hnot, id, m, hm, hk, hnames⟩
    have hnone : g.messages[p]? = none := Std.ExtTreeMap.getElem?_eq_none hnot
    obtain rfl := h.keyed id m hm
    obtain ⟨t, r, ht, hr, hplace⟩ := h.exists_reply? hm hk
    have hparent : r.parent = .node p :=
      hplace.trans ((placement_eq_node_iff h.keyed hm hk).2 ⟨hnames, hne, by simp [hnone]⟩)
    obtain ⟨_ | gh, hslot, -, hghost⟩ := h.exists_slot ht hr hparent
    · cases hghost.2 hnone
    · exact ⟨t, gh, ht, ThreadTree.ghost?_eq_some_iff.2 hslot⟩

/-- The root of a tree has never been seen if it is neither stored nor deleted. -/
theorem root_unknown_iff (h : g.Coherent) {t : ThreadTree} (ht : g.threads[k]? = some t) :
    t.root = .unknown ↔ ¬ g.Starts k ∧ k ∉ g.deletedRoots := by
  rw [← (h.depicts ht).root_stored, ← (h.depicts ht).root_deleted]
  cases t.root <;> simp

/-- The trees whose root has never been seen are those of the threads that miss their root. -/
theorem exists_unknown_iff (h : g.Coherent) :
    (∃ t, g.threads[k]? = some t ∧ t.root = .unknown) ↔ g.MissesRoot k := by
  constructor
  · rintro ⟨t, ht, hunknown⟩
    obtain ⟨hstarts, hdeleted⟩ := (h.root_unknown_iff ht).1 hunknown
    obtain ⟨id, m, hm, hkey⟩ := h.populated k (mem_iff_getElem?.2 ⟨t, ht⟩)
    refine ⟨hstarts, hdeleted, id, m, hm, ?_⟩
    cases hthread : m.thread with
    | none => exact absurd ⟨m, by rw [← hkey, hthread]; exact hm, hthread⟩ hstarts
    | some q => rw [← hkey, hthread, Option.getD_some]
  · rintro ⟨hstarts, hdeleted, id, m, hm, hk⟩
    obtain ⟨t, -, ht, -⟩ := h.exists_reply? hm hk
    exact ⟨t, ht, (h.root_unknown_iff ht).2 ⟨hstarts, hdeleted⟩⟩

theorem mem_ghostIds (h : g.Coherent) : x ∈ g.ghostIds ↔ ∃ k, g.MissesParent k x := by
  rw [ghostIds, mem_ofList, List.mem_flatMap]
  simp only [ThreadTree.mem_ghosts, ← h.exists_ghost?_iff, h.mem_trees]
  constructor
  · rintro ⟨t, ht, gh, hgh⟩
    exact ⟨t.id, t, gh, ht, hgh⟩
  · rintro ⟨k, t, gh, ht, hgh⟩
    exact ⟨t, by rwa [h.planted.tree_id k t ht], gh, hgh⟩

end Coherent

end Board

end Noticeboard
