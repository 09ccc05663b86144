import Noticeboard.Board.Listing
import Noticeboard.Proofs.Board.Forest
import Noticeboard.Proofs.ThreadTree.Descent

/-!
# Listings partition a board

The entries that a board lists hold every stored message once, and nothing else
(`run_entries_partition`). Each entry is seen here as a list of ids: the whole of a tree whose root
is known, or the group of one head in a tree whose root is not (`ThreadTree.group`). Two groups have
nothing in common, since climbing leads nowhere else than to one head, and it does lead to one,
since no stored reply is below itself.
-/

namespace Noticeboard

open Relation

namespace ThreadTree

variable {t : ThreadTree} {id p x : MessageId} {r : Reply}

/-! ## Groups -/

theorem mem_replies : (id, r) ∈ t.replies ↔ t.reply? id = some r := by
  simp only [replies, reply?, List.mem_filterMap, Prod.exists, Option.map_eq_some_iff,
    Std.ExtTreeMap.mem_toList_iff_getElem?_eq_some, Option.bind_eq_some_iff, Prod.mk.injEq]
  constructor
  · rintro ⟨_, slot, hslot, _, hr, rfl, rfl⟩
    exact ⟨slot, hslot, hr⟩
  · rintro ⟨slot, hslot, hr⟩
    exact ⟨id, slot, hslot, r, hr, rfl, rfl⟩

theorem nodup_replies (t : ThreadTree) : (t.replies.map (·.1)).Nodup := by
  refine List.pairwise_map.2 (List.pairwise_filterMap.2 ?_)
  refine (Std.ExtTreeMap.distinct_keys_toList (t := t.nodes)).imp fun {a b} hne c hc d hd => ?_
  obtain ⟨_, -, rfl⟩ := Option.map_eq_some_iff.1 hc
  obtain ⟨_, -, rfl⟩ := Option.map_eq_some_iff.1 hd
  exact fun he => hne (by rw [Std.LawfulEqOrd.compare_eq_iff_eq]; exact he)

/-- The stored replies that head an entry if the root is unknown. -/
def heads (t : ThreadTree) : List MessageId :=
  (t.replies.filter fun (_, r) => t.headsEntry r).map (·.1)

/-- A stored reply with all that hangs below it. -/
def group (t : ThreadTree) (head : MessageId) : List MessageId := head :: t.descendants head

theorem mem_heads : id ∈ t.heads ↔ ∃ r, t.reply? id = some r ∧ t.headsEntry r = true := by
  simp [heads, mem_replies]

theorem mem_group (h : t.Knit ∅) (ha : t.Acyclic) :
    x ∈ t.group id ↔ ReflTransGen t.HangsUnder x id := by
  rw [group, List.mem_cons, mem_descendants h ha, reflTransGen_iff_eq_or_transGen, @eq_comm _ x id]

theorem nodup_group (h : t.Knit ∅) (ha : t.Acyclic) (id : MessageId) : (t.group id).Nodup :=
  List.nodup_cons.2 ⟨fun hid => ha id ((mem_descendants h ha).1 hid), nodup_descendants h ha id⟩

theorem hangsUnder_of_reply? (hr : t.reply? id = some r) :
    t.HangsUnder id p ↔ r.parent = .node p := by
  rw [HangsUnder, linkOf?_eq_some_iff]
  simp [hr]

/-- A head hangs under no stored reply. -/
theorem not_transGen_of_mem_heads (hid : id ∈ t.heads) (hx : t.reply? x = some r) :
    ¬ TransGen t.HangsUnder id x := by
  intro hclimb
  obtain ⟨p, hp, hpx⟩ := TransGen.head'_iff.1 hclimb
  obtain ⟨r', hr', hhead⟩ := mem_heads.1 hid
  rw [headsEntry, (hangsUnder_of_reply? hr').1 hp] at hhead
  obtain ⟨gh, hgh⟩ := Option.isSome_iff_exists.1 hhead
  have hslot := ghost?_eq_some_iff.1 hgh
  rcases hpx.cases_head with rfl | ⟨q, hpq, -⟩
  · rw [reply?_eq_some hx] at hslot
    cases hslot
  · rw [HangsUnder, linkOf?_of_ghost hslot] at hpq
    cases hpq

/-- The groups of two heads have nothing in common. -/
theorem nodup_groups (h : t.Knit ∅) (ha : t.Acyclic) : (t.heads.flatMap t.group).Nodup := by
  have hheads : t.heads.Nodup := (nodup_replies t).sublist (List.filter_sublist.map _)
  refine List.nodup_flatMap.2 ⟨fun id _ => nodup_group h ha id, ?_⟩
  refine hheads.imp_of_mem fun {a b} hma hmb hne x hxa hxb => ?_
  obtain ⟨ra, hra, -⟩ := mem_heads.1 hma
  obtain ⟨rb, hrb, -⟩ := mem_heads.1 hmb
  have htotal := ReflTransGen.total_of_right_unique (hangsUnder_rightUnique t)
    ((mem_group h ha).1 hxa) ((mem_group h ha).1 hxb)
  rcases htotal with hab | hba
  · have hbelow := (reflTransGen_iff_eq_or_transGen.1 hab).resolve_left hne.symm
    exact not_transGen_of_mem_heads hma hrb hbelow
  · have hbelow := (reflTransGen_iff_eq_or_transGen.1 hba).resolve_left hne
    exact not_transGen_of_mem_heads hmb hra hbelow

/-- What climbs to the root does not come back to itself. -/
theorem ReachesRoot.not_below (h : t.ReachesRoot id) : ¬ TransGen t.HangsUnder id id := by
  have habove {c q : MessageId} (hc : t.HangsUnder c q) : t.above? c = some (.node q) := by
    obtain ⟨r, hr, hparent⟩ := linkOf?_eq_some_iff.1 hc
    rw [above?_of_reply? hr, hparent]
  induction h with
  | top htop =>
    intro hself
    obtain ⟨q, hq, -⟩ := TransGen.head'_iff.1 hself
    rw [habove hq] at htop
    cases htop
  | @under id p hp _ ih =>
    intro hself
    obtain ⟨q, hq, hback⟩ := TransGen.head'_iff.1 hself
    rw [habove hq] at hp
    cases hp
    exact ih (TransGen.tail' hback hq)

/-- Climbing from a stored reply leads to a head. -/
theorem ReachesRoot.exists_head (h : t.ReachesRoot id)
    (hparent : ∀ c r p, t.reply? c = some r → r.parent = .node p → p ∈ t.nodes)
    (hr : t.reply? id = some r) : ∃ head ∈ t.heads, ReflTransGen t.HangsUnder id head := by
  induction h generalizing r with
  | @top id htop =>
    rw [above?_of_reply? hr, Option.some.injEq] at htop
    exact ⟨id, mem_heads.2 ⟨r, hr, by rw [headsEntry, htop]⟩, .refl⟩
  | @under id p hp _ ih =>
    rw [above?_of_reply? hr, Option.some.injEq] at hp
    obtain ⟨slot, hslot⟩ := mem_iff_getElem?.1 (hparent id r p hr hp)
    cases slot with
    | ghost gh =>
      exact ⟨id, mem_heads.2 ⟨r, hr, by simp [headsEntry, hp, ghost?_eq_some_iff.2 hslot]⟩, .refl⟩
    | reply rp =>
      obtain ⟨head, hhead, hclimb⟩ := ih (r := rp) (by simp [reply?, hslot, Slot.reply?])
      exact ⟨head, hhead, .head ((hangsUnder_of_reply? hr).2 hp) hclimb⟩

/-- Every stored reply is in a group. -/
theorem mem_groups (h : t.Knit ∅) (ha : t.Acyclic) (hroot : ∀ id ∈ t.nodes, t.ReachesRoot id)
    (hparent : ∀ c r p, t.reply? c = some r → r.parent = .node p → p ∈ t.nodes) :
    x ∈ t.heads.flatMap t.group ↔ ∃ r, t.reply? x = some r := by
  rw [List.mem_flatMap]
  constructor
  · rintro ⟨head, hhead, hx⟩
    rcases ((mem_group h ha).1 hx).cases_head with rfl | ⟨p, hxp, -⟩
    · obtain ⟨r, hr, -⟩ := mem_heads.1 hhead
      exact ⟨r, hr⟩
    · exact exists_reply?_of_below (.single hxp)
  · rintro ⟨r, hr⟩
    have hx : x ∈ t.nodes := mem_iff_getElem?.2 ⟨_, reply?_eq_some hr⟩
    obtain ⟨head, hhead, hclimb⟩ := (hroot x hx).exists_head hparent hr
    exact ⟨head, hhead, (mem_group h ha).2 hclimb⟩

/-- The ids of the messages that the entries of a tree hold. -/
def listed (t : ThreadTree) : List MessageId :=
  if t.root = .unknown then t.heads.flatMap t.group
  else (if t.root = .stored then [t.id] else []) ++ t.replies.map (·.1)

end ThreadTree

namespace Board

variable {g : Board} {m : Message} {id k : MessageId} {t : ThreadTree} {ids : List MessageId}

/-! ## The messages of an entry -/

/-- The stored ones of the given messages. -/
def pick (g : Board) (ids : List MessageId) : List Message := ids.filterMap (g.messages[·]?)

theorem pick_append (g : Board) (ids ids' : List MessageId) :
    g.pick (ids ++ ids') = g.pick ids ++ g.pick ids' :=
  List.filterMap_append

theorem mem_pick (h : Keyed g.messages) :
    m ∈ g.pick ids ↔ m.id ∈ ids ∧ g.messages[m.id]? = some m := by
  rw [pick, List.mem_filterMap]
  constructor
  · rintro ⟨id, hid, hm⟩
    obtain rfl := h id m hm
    exact ⟨hid, hm⟩
  · rintro ⟨hid, hm⟩
    exact ⟨m.id, hid, hm⟩

theorem nodup_pick (h : Keyed g.messages) (hids : ids.Nodup) : (g.pick ids).Nodup :=
  hids.filterMap fun a b m ha hb => (h a m ha).symm.trans (h b m hb)

theorem messages_wholeEntry (g : Board) (t : ThreadTree) : (g.wholeEntry t).messages =
    g.pick ((if t.root = .stored then [t.id] else []) ++ t.replies.map (·.1)) := by
  rw [ThreadEntry.messages, wholeEntry, pick_append]
  congr 1
  · cases hroot : t.root <;> cases hm : g.messages[t.id]? <;> simp [pick, hm]
  · simp [pick, List.filterMap_map]

theorem messages_orphanEntries (g : Board) (t : ThreadTree) (hids : ∀ id ∈ ids, id ∈ g.messages) :
    (ids.filterMap fun id => g.orphanEntry? t id).flatMap (·.messages) =
      g.pick (ids.flatMap t.group) := by
  induction ids with
  | nil => rfl
  | cons id ids ih =>
    obtain ⟨hid, hids⟩ := List.forall_mem_cons.1 hids
    obtain ⟨m, hm⟩ := mem_iff_getElem?.1 hid
    have hentry : g.orphanEntry? t id = some
        { id, kind := .orphan, head := some m, replies := g.pick (t.descendants id) } := by
      unfold orphanEntry?
      rw [hm]
      rfl
    have hgroup : g.pick (t.group id) = m :: g.pick (t.descendants id) :=
      List.filterMap_cons_some hm
    rw [List.filterMap_cons_some hentry, List.flatMap_cons, ih hids, List.flatMap_cons, pick_append,
      hgroup]
    rfl

/-- The entry that an orphan heads holds its group. -/
theorem messages_orphanEntry {e : ThreadEntry} (he : g.orphanEntry? t id = some e) :
    e.messages = g.pick (t.group id) := by
  obtain ⟨m, hm, -⟩ := Option.map_eq_some_iff.1 he
  have hstored : ∀ q ∈ [id], q ∈ g.messages := by
    simpa using mem_iff_getElem?.2 ⟨m, hm⟩
  simpa [he] using messages_orphanEntries g t hstored

/-- The entry of a thread whose root is known holds the whole tree. -/
theorem messages_wholeEntry_of_known (g : Board) (hroot : t.root ≠ .unknown) :
    (g.wholeEntry t).messages = g.pick t.listed := by
  rw [messages_wholeEntry, ThreadTree.listed, if_neg hroot]

namespace Coherent

theorem acyclic (h : g.Coherent) (ht : g.threads[k]? = some t) : t.Acyclic := by
  intro id hid
  obtain ⟨p, hp, -⟩ := TransGen.head'_iff.1 hid
  exact (h.reachesRoot ht hp.mem_nodes).not_below hid

theorem messages_treeEntries (h : g.Coherent) (ht : g.threads[k]? = some t) :
    (g.treeEntries t).flatMap (·.messages) = g.pick t.listed := by
  rw [treeEntries, ThreadTree.listed]
  by_cases hroot : t.root = .unknown
  · have hstored : ∀ id ∈ t.heads, id ∈ g.messages := by
      intro id hid
      obtain ⟨r, hr, -⟩ := ThreadTree.mem_heads.1 hid
      obtain ⟨m, hm, -⟩ := h.stored_of_reply? ht hr
      exact mem_iff_getElem?.2 ⟨m, hm⟩
    rw [if_pos (by simp [hroot]), if_pos hroot, ← messages_orphanEntries g t hstored,
      ThreadTree.heads, List.filterMap_map]
    rfl
  · rw [if_neg (by simpa using hroot), if_neg hroot, ← messages_wholeEntry]
    exact List.append_nil _

theorem exists_reply?_iff (h : g.Coherent) (ht : g.threads[k]? = some t) :
    (∃ r, t.reply? id = some r) ↔ ∃ m : Message, g.messages[id]? = some m ∧ m.thread = some k := by
  constructor
  · rintro ⟨r, hr⟩
    obtain ⟨m, hm, hk, -⟩ := h.stored_of_reply? ht hr
    exact ⟨m, hm, hk⟩
  · rintro ⟨m, hm, hk⟩
    obtain ⟨r, hr, -⟩ := h.reply?_of_stored ht hm hk
    exact ⟨r, hr⟩

/-- The entries of a tree hold the messages that are filed in it. -/
theorem mem_listed (h : g.Coherent) (ht : g.threads[k]? = some t) :
    id ∈ t.listed ↔ ∃ m : Message, g.messages[id]? = some m ∧ m.thread.getD id = k := by
  have hdepicts := h.depicts ht
  have hfiled : (∃ m : Message, g.messages[id]? = some m ∧ m.thread.getD id = k) ↔
      (g.Starts k ∧ id = k) ∨ ∃ r, t.reply? id = some r := by
    rw [h.exists_reply?_iff ht]
    constructor
    · rintro ⟨m, hm, hk⟩
      cases hthread : m.thread with
      | none =>
        rw [hthread, Option.getD_none] at hk
        exact .inl ⟨⟨m, hk ▸ hm, hthread⟩, hk⟩
      | some q =>
        rw [hthread, Option.getD_some] at hk
        exact .inr ⟨m, hm, hk ▸ hthread⟩
    · rintro (⟨⟨m, hm, hthread⟩, rfl⟩ | ⟨m, hm, hthread⟩)
      · exact ⟨m, hm, by rw [hthread, Option.getD_none]⟩
      · exact ⟨m, hm, by rw [hthread, Option.getD_some]⟩
  rw [hfiled, ← hdepicts.root_stored, ThreadTree.listed]
  split
  · next hroot =>
    rw [ThreadTree.mem_groups (h.planted.knit k t ht) (h.acyclic ht)
      (fun id hid => h.reachesRoot ht hid) hdepicts.parents]
    simp [hroot]
  · rw [List.mem_append, List.mem_map, h.planted.tree_id k t ht]
    simp only [Prod.exists, exists_and_right, exists_eq_right, ThreadTree.mem_replies]
    split <;> simp_all

theorem nodup_listed (h : g.Coherent) (ht : g.threads[k]? = some t) : t.listed.Nodup := by
  rw [ThreadTree.listed]
  split
  · exact ThreadTree.nodup_groups (h.planted.knit k t ht) (h.acyclic ht)
  · refine List.nodup_append'.2 ⟨by split <;> simp, ThreadTree.nodup_replies t, ?_⟩
    intro id hid hreply
    split at hid
    · next hroot =>
      obtain rfl : id = t.id := by simpa using hid
      rw [h.planted.tree_id k t ht] at hreply
      obtain ⟨m, hm, hthread⟩ := (h.depicts ht).root_stored.1 hroot
      obtain ⟨⟨_, r⟩, hr, rfl⟩ := List.mem_map.1 hreply
      obtain ⟨x, hx, hk⟩ := (h.exists_reply?_iff ht).1 ⟨r, ThreadTree.mem_replies.1 hr⟩
      rw [hm] at hx
      cases hx
      rw [hthread] at hk
      cases hk
    · cases hid

theorem mem_trees (h : g.Coherent) : t ∈ g.trees ↔ g.threads[t.id]? = some t := by
  simp only [trees, List.mem_map, Prod.exists, Std.ExtTreeMap.mem_toList_iff_getElem?_eq_some]
  constructor
  · rintro ⟨k, t, ht, rfl⟩
    rwa [h.planted.tree_id k t ht]
  · exact fun ht => ⟨t.id, t, ht, rfl⟩

theorem messages_entries (h : g.Coherent) :
    g.entries.flatMap (·.messages) = g.pick (g.trees.flatMap ThreadTree.listed) := by
  have htree : ∀ t ∈ g.trees, (g.treeEntries t).flatMap (·.messages) = g.pick t.listed :=
    fun t ht => h.messages_treeEntries (h.mem_trees.1 ht)
  rw [entries, List.flatMap_assoc, List.flatMap_congr htree, pick, List.filterMap_flatMap]
  rfl

/-- Trees have no message in common. -/
theorem nodup_flatMap_listed (h : g.Coherent) : (g.trees.flatMap ThreadTree.listed).Nodup := by
  refine List.nodup_flatMap.2 ⟨fun t ht => h.nodup_listed (h.mem_trees.1 ht), ?_⟩
  have hids : g.trees.Pairwise fun a b => a.id ≠ b.id := by
    refine List.pairwise_map.2 (Std.ExtTreeMap.distinct_keys_toList.imp_of_mem ?_)
    intro a b ha hb hne he
    have hid (c : MessageId × ThreadTree) (hc : c ∈ g.threads.toList) : c.2.id = c.1 :=
      h.planted.tree_id c.1 c.2 (Std.ExtTreeMap.mem_toList_iff_getElem?_eq_some.1 hc)
    exact hne (Std.LawfulEqOrd.compare_eq_iff_eq.2 ((hid a ha).symm.trans (he.trans (hid b hb))))
  refine hids.imp_of_mem fun {a b} ha hb hne id hia hib => hne ?_
  obtain ⟨m, hm, hka⟩ := (h.mem_listed (h.mem_trees.1 ha)).1 hia
  obtain ⟨m', hm', hkb⟩ := (h.mem_listed (h.mem_trees.1 hb)).1 hib
  rw [hm] at hm'
  cases hm'
  exact hka.symm.trans hkb

/-- The entries hold every stored message once, and nothing else. -/
theorem entries_partition (h : g.Coherent) : (g.entries.flatMap (·.messages)).Nodup ∧
    ∀ m, m ∈ g.entries.flatMap (·.messages) ↔ g.messages[m.id]? = some m := by
  rw [h.messages_entries]
  refine ⟨nodup_pick h.keyed h.nodup_flatMap_listed, fun m => ?_⟩
  rw [mem_pick h.keyed]
  refine and_iff_right_of_imp fun hm => ?_
  obtain ⟨t, ht⟩ := h.planted.tree_of m.id m hm
  have hid := h.planted.tree_id _ t ht
  refine List.mem_flatMap.2 ⟨t, h.mem_trees.2 (hid ▸ ht), ?_⟩
  exact (h.mem_listed ht).2 ⟨m, hm, rfl⟩

end Coherent

/-- In every run the entries partition the stored messages: each occurs once in one of them, as its
head or among its replies, and no entry holds anything else. -/
theorem run_entries_partition (name : BoardName) {ops : List Op} (hops : ∀ op ∈ ops, op.Admissible) :
    ((run name ops).entries.flatMap (·.messages)).Nodup ∧
      ∀ m, m ∈ (run name ops).entries.flatMap (·.messages) ↔
        (run name ops).messages[m.id]? = some m :=
  (coherent_run name hops).1.entries_partition

/-- Two replies of a thread never seen, in a loop that the first cuts: one entry holds both. -/
theorem ring_entries_partition : (∀ op ∈ Ring.ops.take 2, op.Admissible) ∧
    ((run Ring.board (Ring.ops.take 2)).entries.map (·.messages)) = [[Ring.first, Ring.second]] ∧
    ((run Ring.board (Ring.ops.take 2)).entries.flatMap (·.messages)).Nodup ∧
    ∀ m, m ∈ (run Ring.board (Ring.ops.take 2)).entries.flatMap (·.messages) ↔
      (run Ring.board (Ring.ops.take 2)).messages[m.id]? = some m := by
  have hops : ∀ op ∈ Ring.ops.take 2, op.Admissible := by decide
  exact ⟨hops, by decide +kernel, run_entries_partition Ring.board hops⟩

end Board

end Noticeboard
