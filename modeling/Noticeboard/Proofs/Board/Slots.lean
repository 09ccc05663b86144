import Noticeboard.Board.Departure
import Noticeboard.Proofs.Board.Planted

/-!
# Slots

Attaching a reply makes no slot but that of a ghost, and detaching one takes no other away; both say
which (`ThreadTree.link_snd_iff`, `ThreadTree.mem_nodes_unlink_iff`). So a tree that has a slot for `p`
after some replies were moved had it before, or `p` is among the ghosts made
(`hasSlot_relocateAll`). A ghost is made for nothing but a parent that one of the replies names
(`exists_parent_of_mem_relocateAll`).
-/

namespace Noticeboard

namespace ThreadTree

variable {t : ThreadTree} {c id p : MessageId} {d : Timestamp} {l : Link} {r : Reply}

/-- Detaching takes away the slot of a ghost that went, and no other. -/
theorem mem_nodes_unlink_iff : p ∈ (t.unlink c l).1.nodes ↔
    p ∈ t.nodes ∧ ¬ ((t.unlink c l).2 = true ∧ l = .node p) := by
  cases l with
  | root => simp [unlink]
  | node q =>
    rw [unlink, removeChild]
    cases hq : t.nodes[q]? with
    | none => simp
    | some slot =>
      have hmem : q ∈ t.nodes := mem_iff_getElem?.2 ⟨slot, hq⟩
      cases slot with
      | reply r => grind
      | ghost g => grind

/-- A ghost that went had a slot. -/
theorem mem_nodes_of_unlink (h : (t.unlink c l).2 = true) : ∃ p, l = .node p ∧ p ∈ t.nodes := by
  cases l with
  | root => cases h
  | node q =>
    refine ⟨q, rfl, ?_⟩
    rw [unlink, removeChild] at h
    cases hq : t.nodes[q]? with
    | none => simp [hq] at h
    | some slot => exact mem_iff_getElem?.2 ⟨slot, hq⟩

theorem mem_nodes_setParent : p ∈ (t.setParent c l).nodes ↔ p ∈ t.nodes := by
  rcases t.setParent_eq c l with heq | ⟨r, hr, heq⟩
  · rw [heq]
  · rw [heq]
    exact ⟨mem_of_mem_replace hr, fun hp => Std.ExtTreeMap.mem_insert.2 (.inr hp)⟩

/-- A ghost is made of a parent without a slot. -/
theorem link_snd_iff : (t.link c d l).2 = true ↔ ∃ p, l = .node p ∧ p ∉ t.nodes := by
  cases l with
  | root => simp [link]
  | node q =>
    simp only [Link.node.injEq, exists_eq_left', ← mem_nodes_setParent (t := t) (c := c)
      (l := .node q), link, addChild]
    cases hq : (t.setParent c (.node q)).nodes[q]? with
    | none => simpa [mem_iff_getElem?] using hq
    | some slot => cases slot <;> simp [mem_iff_getElem?, hq]

theorem insertReply_snd_iff : (t.insertReply id r).2 = true ↔
    ∃ p, r.parent = .node p ∧ p ≠ id ∧ p ∉ t.nodes := by
  simp only [insertReply, link_snd_iff, Std.ExtTreeMap.mem_insert, Std.LawfulEqOrd.compare_eq_iff_eq,
    not_or, @eq_comm _ id, ne_eq]

theorem mem_nodes_link (h : p ∈ (t.link c d l).1.nodes) :
    p ∈ t.nodes ∨ ((t.link c d l).2 = true ∧ l = .node p) := by
  cases l with
  | root => exact .inl (mem_nodes_setParent.1 h)
  | node q =>
    rw [link, addChild] at h ⊢
    split at h
    · next r hq => exact .inl (mem_nodes_setParent.1 (mem_of_mem_replace hq h))
    · next gh hq => exact .inl (mem_nodes_setParent.1 (mem_of_mem_replace hq h))
    · rcases Std.ExtTreeMap.mem_insert.1 h with he | h
      · exact .inr ⟨rfl, congrArg Link.node (Std.LawfulEqOrd.eq_of_compare he)⟩
      · exact .inl (mem_nodes_setParent.1 h)

end ThreadTree

namespace Board

variable {g : Board} {m : Message} {id k p : MessageId} {ids : List MessageId}

/-- Some tree has a slot for `p`. -/
def HasSlot (g : Board) (p : MessageId) : Prop :=
  ∃ (k : MessageId) (t : ThreadTree), g.threads[k]? = some t ∧ p ∈ t.nodes

/-- Where a tree takes the place of another, a slot is in the new tree or was there before. -/
theorem HasSlot.of_insert {t : ThreadTree}
    (h : { g with threads := g.threads.insert k t }.HasSlot p) : p ∈ t.nodes ∨ g.HasSlot p := by
  obtain ⟨q, s, hs, hp⟩ := h
  rw [Std.ExtTreeMap.getElem?_insert] at hs
  split at hs
  · cases hs
    exact .inl hp
  · exact .inr ⟨q, s, hs, hp⟩

theorem hasSlot_detach (h : (g.detach id).1.HasSlot p) : g.HasSlot p := by
  rw [detach] at h
  split at h
  · exact h
  · next q t htree =>
    obtain ⟨-, -, -, ht⟩ := treeOf?_eq_some.1 htree
    split at h
    · exact h
    · rcases h.of_insert with hp | h
      · exact ⟨q, t, ht, (ThreadTree.mem_nodes_unlink_iff.1 hp).1⟩
      · exact h

theorem hasSlot_attach (h : (g.attach id).1.HasSlot p) :
    g.HasSlot p ∨ (g.attach id).2 = some p := by
  rw [attach] at h ⊢
  split at h
  · next m q t hm htree =>
    obtain ⟨-, -, -, ht⟩ := treeOf?_eq_some.1 htree
    rcases h.of_insert with hp | h
    · rcases ThreadTree.mem_nodes_link hp with hp | ⟨hmade, hplace⟩
      · exact .inl ⟨q, t, ht, hp⟩
      · rw [hplace] at hmade
        exact .inr (by simp [hplace, hmade])
    · exact .inl h
  · exact .inl h

theorem hasSlot_relocate (h : (g.relocate id).1.HasSlot p) :
    g.HasSlot p ∨ (g.relocate id).2 = some p :=
  (hasSlot_attach h).imp_left hasSlot_detach

theorem hasSlot_dropTree (h : (g.dropTree k).HasSlot p) : g.HasSlot p := by
  obtain ⟨q, t, ht, hp⟩ := h
  refine ⟨q, t, ?_, hp⟩
  rw [dropTree, Std.ExtTreeMap.getElem?_erase] at ht
  split at ht
  · cases ht
  · exact ht

theorem parent_of_attach (h : (g.attach id).2 = some p) :
    ∃ m, g.messages[id]? = some m ∧ m.parent = some p := by
  rw [attach] at h
  split at h
  · next m q t hm htree =>
    dsimp only at h
    split at h
    · next hplace =>
      cases h
      exact ⟨m, hm, (parent_of_placement_eq_node hplace).1⟩
    · cases h
  · cases h

theorem parent_of_relocate (h : (g.relocate id).2 = some p) :
    ∃ m, g.messages[id]? = some m ∧ m.parent = some p := by
  obtain ⟨m, hm, hparent⟩ := parent_of_attach h
  exact ⟨m, (regrown_detach g id).messages ▸ hm, hparent⟩

/-! ## Several replies -/

/-- Moves one more reply, and lists the ghost made for it behind the others. -/
def relocateNext (r : Board × List MessageId) (id : MessageId) : Board × List MessageId :=
  ((r.1.relocate id).1, r.2 ++ (r.1.relocate id).2.toList)

theorem relocateAll_eq_foldl (g : Board) (ids : List MessageId) :
    g.relocateAll ids = ids.foldl relocateNext (g, []) := rfl

theorem foldl_relocateNext (g : Board) (made ids : List MessageId) :
    ids.foldl relocateNext (g, made) = ((g.relocateAll ids).1, made ++ (g.relocateAll ids).2) := by
  rw [relocateAll_eq_foldl]
  induction ids generalizing g made with
  | nil => simp
  | cons id ids ih =>
    rw [List.foldl_cons, List.foldl_cons, relocateNext, relocateNext, ih, ih _ ([] ++ _),
      List.nil_append, List.append_assoc]

theorem relocateAll_cons (g : Board) (id : MessageId) (ids : List MessageId) :
    g.relocateAll (id :: ids) = (((g.relocate id).1.relocateAll ids).1,
      (g.relocate id).2.toList ++ ((g.relocate id).1.relocateAll ids).2) := by
  rw [relocateAll_eq_foldl, List.foldl_cons, relocateNext, foldl_relocateNext]
  rfl

theorem hasSlot_relocateAll (h : (g.relocateAll ids).1.HasSlot p) :
    g.HasSlot p ∨ p ∈ (g.relocateAll ids).2 := by
  induction ids generalizing g with
  | nil => exact .inl h
  | cons id ids ih =>
    rw [relocateAll_cons] at h ⊢
    rcases ih h with h | hp
    · rcases hasSlot_relocate h with h | hp
      · exact .inl h
      · exact .inr (List.mem_append_left _ (by simp [hp]))
    · exact .inr (List.mem_append_right _ hp)

theorem exists_parent_of_mem_relocateAll (h : p ∈ (g.relocateAll ids).2) :
    ∃ id ∈ ids, ∃ m, g.messages[id]? = some m ∧ m.parent = some p := by
  induction ids generalizing g with
  | nil => cases h
  | cons id ids ih =>
    rw [relocateAll_cons] at h
    rcases List.mem_append.1 h with hp | hp
    · exact ⟨id, List.mem_cons_self, parent_of_relocate (by simpa using hp)⟩
    · obtain ⟨c, hc, m, hm, hparent⟩ := ih hp
      refine ⟨c, List.mem_cons_of_mem _ hc, m, ?_, hparent⟩
      exact (regrown_relocate g id).messages ▸ hm

end Board

end Noticeboard
