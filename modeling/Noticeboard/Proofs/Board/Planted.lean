import Noticeboard.Proofs.Board.Placement
import Noticeboard.Proofs.ThreadTree.Knit

/-!
# Planted boards

The trees of a board are `Planted` when each is knit, holds exactly the replies stored in its thread
and has the root that the stored messages and the deleted roots call for. Where the replies hang is
left open: it is given by a function `links`, and replies in the set `loose` are attached nowhere.

`Planted.detach`, `Planted.attach` and their folds say how moving replies changes `links` and
`loose`. Moving replies touches nothing else (`Regrown`).
-/

namespace Noticeboard

namespace Board

/-! ## Boards that differ in their trees alone -/

/-- `g'` is `g` with other trees for the same threads. -/
structure Regrown (g g' : Board) : Prop where
  eq : g' = { g with threads := g'.threads }
  mem_threads : ∀ k, k ∈ g'.threads ↔ k ∈ g.threads

namespace Regrown

variable {g g' g'' : Board}

theorem refl (g : Board) : Regrown g g := ⟨rfl, fun _ => Iff.rfl⟩

theorem trans (h : Regrown g g') (h' : Regrown g' g'') : Regrown g g'' := by
  refine ⟨?_, fun k => (h'.mem_threads k).trans (h.mem_threads k)⟩
  rw [h'.eq, h.eq]

theorem name (h : Regrown g g') : g'.name = g.name := by rw [h.eq]

theorem messages (h : Regrown g g') : g'.messages = g.messages := by rw [h.eq]

theorem repliesTo (h : Regrown g g') : g'.repliesTo = g.repliesTo := by rw [h.eq]

theorem deletedRoots (h : Regrown g g') : g'.deletedRoots = g.deletedRoots := by rw [h.eq]

theorem inconsistent (h : Regrown g g') : g'.inconsistent = g.inconsistent := by rw [h.eq]

end Regrown

section Regrown

variable {g : Board}

theorem treeOf?_eq_some {id k : MessageId} {t : ThreadTree} :
    g.treeOf? id = some (k, t) ↔
      ∃ m, g.messages[id]? = some m ∧ m.thread = some k ∧ g.threads[k]? = some t := by
  simp only [treeOf?, Option.bind_eq_some_iff, Option.map_eq_some_iff, Prod.mk.injEq]
  constructor
  · rintro ⟨k', ⟨m, hm, hk⟩, t', ht, rfl, rfl⟩
    exact ⟨m, hm, hk, ht⟩
  · rintro ⟨m, hm, hk, ht⟩
    exact ⟨k, ⟨m, hm, hk⟩, t, ht, rfl, rfl⟩

/-- Replacing the tree of a thread. -/
theorem regrown_insert {k : MessageId} {t : ThreadTree} (ht : g.threads[k]? = some t)
    (t' : ThreadTree) : Regrown g { g with threads := g.threads.insert k t' } := by
  refine ⟨rfl, fun q => ?_⟩
  have hk : k ∈ g.threads := by simp [Std.ExtTreeMap.mem_iff_isSome_getElem?, ht]
  rw [Std.ExtTreeMap.mem_insert, Std.LawfulEqOrd.compare_eq_iff_eq, or_iff_right_of_imp]
  rintro rfl
  exact hk

theorem regrown_detach (g : Board) (id : MessageId) : Regrown g (g.detach id).1 := by
  rw [detach]
  split
  · exact .refl g
  · next k t htree =>
    obtain ⟨_, _, _, ht⟩ := treeOf?_eq_some.1 htree
    split
    · exact .refl g
    · exact regrown_insert ht _

theorem regrown_attach (g : Board) (id : MessageId) : Regrown g (g.attach id).1 := by
  rw [attach]
  split
  · next m k t hm htree =>
    obtain ⟨_, _, _, ht⟩ := treeOf?_eq_some.1 htree
    exact regrown_insert ht _
  · exact .refl g

theorem regrown_relocate (g : Board) (id : MessageId) : Regrown g (g.relocate id).1 :=
  (regrown_detach g id).trans (regrown_attach _ id)

theorem detachAll_fst (g : Board) (ids : List MessageId) :
    (g.detachAll ids).1 = ids.foldl (fun g id => (g.detach id).1) g :=
  (List.foldl_hom Prod.fst fun _ _ => rfl).symm

theorem attachAll_fst (g : Board) (ids : List MessageId) :
    (g.attachAll ids).1 = ids.foldl (fun g id => (g.attach id).1) g :=
  (List.foldl_hom Prod.fst fun _ _ => rfl).symm

theorem relocateAll_fst (g : Board) (ids : List MessageId) :
    (g.relocateAll ids).1 = ids.foldl (fun g id => (g.relocate id).1) g :=
  (List.foldl_hom Prod.fst fun _ _ => rfl).symm

theorem regrown_foldl {move : Board → MessageId → Board} (hmove : ∀ g id, Regrown g (move g id))
    (ids : List MessageId) (g : Board) : Regrown g (ids.foldl move g) := by
  induction ids generalizing g with
  | nil => exact .refl g
  | cons id ids ih => exact (hmove g id).trans (ih _)

theorem regrown_detachAll (g : Board) (ids : List MessageId) : Regrown g (g.detachAll ids).1 :=
  detachAll_fst g ids ▸ regrown_foldl regrown_detach ids g

theorem regrown_attachAll (g : Board) (ids : List MessageId) : Regrown g (g.attachAll ids).1 :=
  attachAll_fst g ids ▸ regrown_foldl regrown_attach ids g

theorem regrown_relocateAll (g : Board) (ids : List MessageId) :
    Regrown g (g.relocateAll ids).1 :=
  relocateAll_fst g ids ▸ regrown_foldl regrown_relocate ids g

end Regrown

/-! ## Planted trees -/

/-- The message stored as a reply in a thread. -/
def replyIn? (g : Board) (k id : MessageId) : Option Message :=
  g.messages[id]?.filter fun m => m.thread == some k

/-- A message stored under `k` starts the thread `k`. -/
def Starts (g : Board) (k : MessageId) : Prop :=
  ∃ m : Message, g.messages[k]? = some m ∧ m.thread = none

/-- The trees stand for the stored messages. Replies hang where `links` says, except for the `loose`
ones. -/
structure Planted (g : Board) (links : MessageId → Link) (loose : Set MessageId) : Prop where
  tree_id : ∀ (k : MessageId) (t : ThreadTree), g.threads[k]? = some t → t.id = k
  knit : ∀ (k : MessageId) (t : ThreadTree), g.threads[k]? = some t → t.Knit loose
  bare : ∀ (k : MessageId) (t : ThreadTree), g.threads[k]? = some t → ∀ id, t.bare? id =
    (g.replyIn? k id).map fun m => ⟨m.created, m.author, links id, ∅⟩
  stored : ∀ (k : MessageId) (t : ThreadTree), g.threads[k]? = some t →
    (t.root = .stored ↔ g.Starts k)
  deleted : ∀ k, k ∈ g.deletedRoots ↔ ∃ t, g.threads[k]? = some t ∧ t.root = .deleted
  tree_of : ∀ (id : MessageId) (m : Message), g.messages[id]? = some m →
    ∃ t, g.threads[m.thread.getD id]? = some t

section Planted

variable {g g' : Board} {links links' : MessageId → Link} {loose loose' : Set MessageId}
  {id k : MessageId} {ids : List MessageId} {t t' : ThreadTree} {m : Message}

theorem replyIn?_eq_some : g.replyIn? k id = some m ↔
    g.messages[id]? = some m ∧ m.thread = some k := by
  simp [replyIn?, Option.filter_eq_some_iff]

theorem Planted.linkOf? (h : g.Planted links loose) (ht : g.threads[k]? = some t) :
    t.linkOf? id = (g.replyIn? k id).map fun _ => links id := by
  simp [ThreadTree.linkOf?, h.bare k t ht, Function.comp_def]

theorem Planted.dateOf? (h : g.Planted links loose) (ht : g.threads[k]? = some t)
    (hm : g.replyIn? k id = some m) : t.dateOf? id = some m.created := by
  simp [ThreadTree.dateOf?, h.bare k t ht, hm]

theorem Planted.reply? (h : g.Planted links loose) (ht : g.threads[k]? = some t)
    (hm : g.replyIn? k id = some m) : ∃ r, t.reply? id = some r ∧ r.parent = links id := by
  have hbare := h.bare k t ht id
  rw [hm, Option.map_some, ThreadTree.bare?_eq_map] at hbare
  obtain ⟨r, hr, he⟩ := Option.map_eq_some_iff.1 hbare
  cases r
  cases he
  exact ⟨_, hr, rfl⟩

/-- A tree is empty when no reply of its thread is stored. -/
theorem Planted.isEmpty_iff (h : g.Planted links loose) (ht : g.threads[k]? = some t) :
    t.isEmpty ↔ ∀ id, g.replyIn? k id = none := by
  have hbare (id : MessageId) : t.bare? id = none ↔ g.replyIn? k id = none := by
    rw [h.bare k t ht, Option.map_eq_none_iff]
  simp only [← hbare]
  constructor
  · intro he id
    rw [ThreadTree.isEmpty, Std.ExtTreeMap.isEmpty_iff] at he
    simp [ThreadTree.bare?, he]
  · intro hnone
    rw [ThreadTree.isEmpty, Std.ExtTreeMap.isEmpty_iff]
    refine Std.ExtTreeMap.ext_getElem? fun q => ?_
    rw [Std.ExtTreeMap.getElem?_empty]
    rcases hslot : t.nodes[q]? with _ | r | gh
    · rfl
    · have hq := hnone q
      rw [ThreadTree.bare?_of_reply hslot] at hq
      cases hq
    · obtain ⟨⟨c, -, hc⟩, -⟩ := (h.knit k t ht).dated q gh hslot
      rw [ThreadTree.dateOf?, hnone c] at hc
      cases hc

/-- The index of replies does not matter. -/
theorem Planted.of_eq (h : g.Planted links loose) (hmessages : g'.messages = g.messages)
    (hthreads : g'.threads = g.threads) (hroots : g'.deletedRoots = g.deletedRoots) :
    g'.Planted links loose := by
  cases g
  cases g'
  cases hmessages
  cases hthreads
  cases hroots
  exact ⟨h.tree_id, h.knit, h.bare, h.stored, h.deleted, h.tree_of⟩

/-! ### Changing one tree -/

/-- Outside the thread `k` the two boards store the same. -/
structure AgreeOutside (k : MessageId) (g g' : Board) : Prop where
  replies : ∀ q id, q ≠ k → g'.replyIn? q id = g.replyIn? q id
  starts : ∀ q, q ≠ k → (g'.Starts q ↔ g.Starts q)
  deletedRoots : ∀ q, q ≠ k → (q ∈ g'.deletedRoots ↔ q ∈ g.deletedRoots)

/-- Thread `k` changes, with its tree `t'`. -/
theorem Planted.replace (h : g.Planted links loose) (hg : AgreeOutside k g g')
    (hthreads : g'.threads = g.threads.insert k t') (hid : t'.id = k) (hknit : t'.Knit loose')
    (hbare : ∀ id, t'.bare? id = (g'.replyIn? k id).map fun m => ⟨m.created, m.author, links' id, ∅⟩)
    (hstored : t'.root = .stored ↔ g'.Starts k)
    (hdeleted : k ∈ g'.deletedRoots ↔ t'.root = .deleted)
    (hsame : ∀ id m q, q ≠ k → g.replyIn? q id = some m →
      links' id = links id ∧ (id ∈ loose' ↔ id ∈ loose)) :
    g'.Planted links' loose' := by
  have hget (q : MessageId) : g'.threads[q]? = if k = q then some t' else g.threads[q]? := by
    simp [hthreads, Std.ExtTreeMap.getElem?_insert]
  have hold {q : MessageId} {s : ThreadTree} (hq : g'.threads[q]? = some s) :
      (q = k ∧ s = t') ∨ (q ≠ k ∧ g.threads[q]? = some s) := by
    rw [hget] at hq
    split at hq
    · next he => exact .inl ⟨he.symm, (Option.some.inj hq).symm⟩
    · next he => exact .inr ⟨Ne.symm he, hq⟩
  constructor
  · intro q s hq
    rcases hold hq with ⟨rfl, rfl⟩ | ⟨-, hq⟩
    · exact hid
    · exact h.tree_id q s hq
  · intro q s hq
    rcases hold hq with ⟨rfl, rfl⟩ | ⟨hne, hq⟩
    · exact hknit
    · refine (h.knit q s hq).congr fun c l hc => ?_
      rw [h.linkOf? hq] at hc
      obtain ⟨m, hm, -⟩ := Option.map_eq_some_iff.1 hc
      exact (hsame c m q hne hm).2
  · intro q s hq id
    rcases hold hq with ⟨rfl, rfl⟩ | ⟨hne, hq⟩
    · exact hbare id
    · rw [hg.replies q id hne]
      refine (h.bare q s hq id).trans (Option.map_congr fun m hm => ?_)
      rw [(hsame id m q hne hm).1]
  · intro q s hq
    rcases hold hq with ⟨rfl, rfl⟩ | ⟨hne, hq⟩
    · exact hstored
    · rw [h.stored q s hq, hg.starts q hne]
  · intro q
    by_cases hq : q = k
    · subst hq
      simp [hdeleted, hget]
    · rw [hg.deletedRoots q hq, h.deleted q, hget, if_neg (Ne.symm hq)]
  · intro id m hm
    by_cases hk : m.thread.getD id = k
    · exact ⟨t', by rw [hget, if_pos hk.symm]⟩
    · rw [hget, if_neg (Ne.symm hk)]
      cases ht : m.thread with
      | none =>
        rw [ht, Option.getD_none] at hk
        obtain ⟨x, hx, hxt⟩ := (hg.starts id hk).1 ⟨m, hm, ht⟩
        simpa [hxt] using h.tree_of id x hx
      | some q =>
        rw [ht, Option.getD_some] at hk
        have hx := replyIn?_eq_some.2 ⟨hm, ht⟩
        rw [hg.replies q id hk] at hx
        obtain ⟨hx, hxt⟩ := replyIn?_eq_some.1 hx
        simpa [hxt] using h.tree_of id m hx

/-- Another tree takes the place of the tree of thread `k`. -/
theorem Planted.setTree (h : g.Planted links loose) (ht : g.threads[k]? = some t)
    (hroot : t'.id = t.id ∧ t'.root = t.root) (hknit : t'.Knit loose')
    (hbare : ∀ id, t'.bare? id = (g.replyIn? k id).map fun m => ⟨m.created, m.author, links' id, ∅⟩)
    (hsame : ∀ id m q, q ≠ k → g.replyIn? q id = some m →
      links' id = links id ∧ (id ∈ loose' ↔ id ∈ loose)) :
    { g with threads := g.threads.insert k t' }.Planted links' loose' := by
  have hdeleted : k ∈ g.deletedRoots ↔ t'.root = .deleted := by
    rw [h.deleted k, hroot.2]
    simp [ht]
  exact h.replace ⟨fun _ _ _ => rfl, fun _ _ => Iff.rfl, fun _ _ => Iff.rfl⟩ rfl
    (hroot.1.trans (h.tree_id k t ht)) hknit hbare (hroot.2 ▸ h.stored k t ht) hdeleted hsame

/-- Links and looseness of what is no stored reply do not matter. -/
theorem Planted.congr (h : g.Planted links loose) (hsame : ∀ id m k, g.replyIn? k id = some m →
    links' id = links id ∧ (id ∈ loose' ↔ id ∈ loose)) : g.Planted links' loose' where
  tree_id := h.tree_id
  knit k t ht := by
    refine (h.knit k t ht).congr fun c l hc => ?_
    rw [h.linkOf? ht] at hc
    obtain ⟨m, hm, -⟩ := Option.map_eq_some_iff.1 hc
    exact (hsame c m k hm).2
  bare k t ht id := by
    refine (h.bare k t ht id).trans (Option.map_congr fun m hm => ?_)
    rw [(hsame id m k hm).1]
  stored := h.stored
  deleted := h.deleted
  tree_of := h.tree_of

/-- A stored reply has a tree and, as a reply, only this one. -/
theorem Planted.treeOf?_eq_none (h : g.Planted links loose) (hid : g.treeOf? id = none) :
    g.replyIn? k id = none := by
  by_contra hne
  obtain ⟨m, hm⟩ := Option.ne_none_iff_exists'.1 hne
  obtain ⟨hstored, hk⟩ := replyIn?_eq_some.1 hm
  obtain ⟨t, ht⟩ := h.tree_of id m hstored
  rw [hk, Option.getD_some] at ht
  rw [treeOf?_eq_some.2 ⟨m, hstored, hk, ht⟩] at hid
  cases hid

/-! ### Moving replies -/

/-- Detaching a reply makes it loose. -/
theorem Planted.detach (h : g.Planted links loose) (id : MessageId) :
    (g.detach id).1.Planted links ({id} ∪ loose) := by
  rw [Board.detach, Set.singleton_union]
  split
  · next htree =>
    refine h.congr fun x m k hx => ⟨rfl, Set.mem_insert_iff.trans (or_iff_right ?_)⟩
    rintro rfl
    rw [h.treeOf?_eq_none htree] at hx
    cases hx
  · next k t htree =>
    obtain ⟨m, hm, hk, ht⟩ := treeOf?_eq_some.1 htree
    obtain ⟨r, hr, hlink⟩ := h.reply? ht (replyIn?_eq_some.2 ⟨hm, hk⟩)
    have hlinkOf : t.linkOf? id = some r.parent := by
      rw [h.linkOf? ht, replyIn?_eq_some.2 ⟨hm, hk⟩, hlink, Option.map_some]
    simp only [hr]
    refine h.setTree ht (t.root_unlink id r.parent) ((h.knit k t ht).unlink hlinkOf) (fun x => ?_)
      fun x y q hne hx => ⟨rfl, Set.mem_insert_iff.trans (or_iff_right ?_)⟩
    · rw [ThreadTree.bare?_unlink, h.bare k t ht]
    · rintro rfl
      obtain ⟨hy, hq⟩ := replyIn?_eq_some.1 hx
      grind

/-- Attaching a loose reply puts it where it belongs. -/
theorem Planted.attach (h : g.Planted links loose) (hid : id ∈ loose) :
    (g.attach id).1.Planted (Function.update links id (g.home id)) (loose \ {id}) := by
  rw [Board.attach]
  split
  · next m k t hm htree =>
    obtain ⟨m', hm', hk, ht⟩ := treeOf?_eq_some.1 htree
    obtain rfl : m' = m := by rw [hm] at hm'; exact (Option.some.inj hm').symm
    have hreply := replyIn?_eq_some.2 ⟨hm, hk⟩
    have hknit := (h.knit k t ht).link hid (h.dateOf? ht hreply) (g.placement m' k)
    have hroot := t.root_link id m'.created (g.placement m' k)
    refine h.setTree ht hroot hknit (fun x => ?_) fun x y q hne hx => ?_
    · rw [ThreadTree.bare?_link]
      split
      · next he =>
        subst he
        simp [h.bare k t ht, hreply, home_of_reply hm hk]
      · next hne =>
        rw [h.bare k t ht, Function.update_of_ne (Ne.symm hne)]
    · have hxid : x ≠ id := by
        rintro rfl
        obtain ⟨hy, hq⟩ := replyIn?_eq_some.1 hx
        grind
      exact ⟨Function.update_of_ne hxid _ _, by simp [hxid]⟩
  · next hnone =>
    refine h.congr fun x m k hx => ?_
    have hxid : x ≠ id := by
      rintro rfl
      obtain ⟨hm, hk⟩ := replyIn?_eq_some.1 hx
      obtain ⟨t, ht⟩ := h.tree_of x m hm
      rw [hk, Option.getD_some] at ht
      exact hnone m k t hm (treeOf?_eq_some.2 ⟨m, hm, hk, ht⟩)
    exact ⟨Function.update_of_ne hxid _ _, by simp [hxid]⟩

/-- Moving a reply puts it where it belongs. -/
theorem Planted.relocate (h : g.Planted links loose) (id : MessageId) :
    (g.relocate id).1.Planted (Function.update links id (g.home id)) (loose \ {id}) := by
  have hattach := (h.detach id).attach (Set.mem_union_left loose rfl)
  rw [home_congr (regrown_detach g id).messages] at hattach
  exact hattach.congr fun x _ _ _ => ⟨rfl, by grind⟩

theorem elim_relocate (g : Board) (o : Option MessageId) :
    (o.elim g fun b => (g.relocate b).1) = (g.relocateAll o.toList).1 := by
  cases o <;> rfl

theorem Planted.detachAll (h : g.Planted links loose) (ids : List MessageId) :
    (g.detachAll ids).1.Planted links ({id | id ∈ ids} ∪ loose) := by
  rw [detachAll_fst]
  induction ids generalizing g loose with
  | nil => simpa using h
  | cons id ids ih => exact (ih (h.detach id)).congr fun x _ _ _ => ⟨rfl, by grind⟩

/-- Some replies are moved where they belong, and the others hang where `links` says. -/
def settled (g : Board) (ids : List MessageId) (links : MessageId → Link) (id : MessageId) : Link :=
  if id ∈ ids then g.home id else links id

theorem settled_nil (g : Board) (links : MessageId → Link) : g.settled [] links = links :=
  funext fun _ => if_neg List.not_mem_nil

theorem settled_congr (h : g.messages = g'.messages) : g.settled = g'.settled := by
  unfold settled
  rw [home_congr h]

theorem settled_cons (g : Board) (id : MessageId) (ids : List MessageId)
    (links : MessageId → Link) :
    g.settled ids (Function.update links id (g.home id)) = g.settled (id :: ids) links := by
  funext x
  by_cases hx : x = id <;> by_cases hids : x ∈ ids <;> simp [settled, hx, hids]

theorem settled_of_mem {ids : List MessageId} {links : MessageId → Link} (h : id ∈ ids) :
    g.settled ids links id = g.home id :=
  if_pos h

theorem settled_of_not_mem {ids : List MessageId} {links : MessageId → Link} (h : id ∉ ids) :
    g.settled ids links id = links id :=
  if_neg h

theorem Planted.attachAll (h : g.Planted links loose) (hids : ids.Nodup)
    (hloose : ∀ id ∈ ids, id ∈ loose) :
    (g.attachAll ids).1.Planted (g.settled ids links) (loose \ {id | id ∈ ids}) := by
  rw [attachAll_fst]
  induction ids generalizing g links loose with
  | nil => simpa [settled_nil] using h
  | cons id ids ih =>
    obtain ⟨hid, hnodup⟩ := List.nodup_cons.1 hids
    have hstep := h.attach (hloose id List.mem_cons_self)
    have hrest := ih hstep hnodup fun x hx =>
      ⟨hloose x (List.mem_cons_of_mem _ hx), fun he => hid (he ▸ hx)⟩
    rw [settled_congr (regrown_attach g id).messages, settled_cons] at hrest
    exact hrest.congr fun x _ _ _ => ⟨rfl, by grind⟩

theorem Planted.relocateAll (h : g.Planted links loose) (ids : List MessageId) :
    (g.relocateAll ids).1.Planted (g.settled ids links) (loose \ {id | id ∈ ids}) := by
  rw [relocateAll_fst]
  induction ids generalizing g links loose with
  | nil => simpa [settled_nil] using h
  | cons id ids ih =>
    have hrest := ih (h.relocate id)
    rw [settled_congr (regrown_relocate g id).messages, settled_cons] at hrest
    exact hrest.congr fun x _ _ _ => ⟨rfl, by grind⟩

end Planted

end Board

end Noticeboard
