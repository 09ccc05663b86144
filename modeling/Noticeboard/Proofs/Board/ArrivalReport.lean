import Noticeboard.Proofs.Board.Ghosts
import Noticeboard.Proofs.Board.Lookup
import Noticeboard.Proofs.Board.Slots

/-!
# What an arrival reports

An arrival detaches the replies that wait for the message, files the message and attaches them again,
and its report is put together from what each of these steps answers. `Vacates` follows the slots of
the trees while replies to one message are detached, so that in the end a ghost went if and only if
there was a slot for that message. The message makes a ghost of its parent if the trees had no slot for
it, and the replies that are attached again find the message in its slot and make none.

The ghosts and the absolute orphans after the arrival are those that the stored messages call for, which
turns the answers of the steps into statements about the boards before and after
(`run_ingest_reports`).
-/

namespace Noticeboard

namespace Board

variable {g g' g'' : Board} {links : MessageId → Link} {loose : Set MessageId} {m : Message}
  {id k p q x : MessageId} {ids : List MessageId} {t : ThreadTree} {gone gone' : Bool}

/-! ## Slots of one tree -/

/-- The tree of a thread has a slot for `p`. -/
def HasSlotIn (g : Board) (k p : MessageId) : Prop :=
  ∃ t, g.threads[k]? = some t ∧ p ∈ t.nodes

theorem hasSlotIn_congr (h : g'.threads = g.threads) : g'.HasSlotIn k p ↔ g.HasSlotIn k p := by
  rw [HasSlotIn, HasSlotIn, h]

theorem hasSlotIn_iff (ht : g.threads[k]? = some t) : g.HasSlotIn k p ↔ p ∈ t.nodes := by
  simp [HasSlotIn, ht]

theorem hasSlotIn_insert : { g with threads := g.threads.insert k t }.HasSlotIn q p ↔
    if k = q then p ∈ t.nodes else g.HasSlotIn q p := by
  simp only [HasSlotIn, Std.ExtTreeMap.getElem?_insert, Std.LawfulEqOrd.compare_eq_iff_eq]
  split <;> simp

theorem mem_nodes_treeOrNew : p ∈ (g.treeOrNew k).nodes ↔ g.HasSlotIn k p := by
  rw [HasSlotIn, treeOrNew]
  cases ht : g.threads[k]? <;> simp [ThreadTree.new]

theorem Planted.hasSlotIn_of_reply (h : g.Planted links loose) (hm : g.replyIn? k id = some m) :
    g.HasSlotIn k id := by
  obtain ⟨hstored, hk⟩ := replyIn?_eq_some.1 hm
  obtain ⟨t, ht⟩ := h.tree_of id m hstored
  rw [hk, Option.getD_some] at ht
  obtain ⟨r, hr, -⟩ := h.reply? ht hm
  exact ⟨t, ht, mem_iff_getElem?.2 ⟨_, ThreadTree.reply?_eq_some hr⟩⟩

/-! ## Detaching the replies that wait -/

/-- From `g` to `g'`, replies to `x` were detached, which took no slot but those of `x`. If `gone` is
set, one of these went, and else none. -/
structure Vacates (x : MessageId) (g g' : Board) (gone : Bool) : Prop where
  others : ∀ k p, p ≠ x → (g'.HasSlotIn k p ↔ g.HasSlotIn k p)
  sub : ∀ k, g'.HasSlotIn k x → g.HasSlotIn k x
  of_gone : gone = true → ∃ k, g.HasSlotIn k x
  of_kept : gone = false → ∀ k, g.HasSlotIn k x → g'.HasSlotIn k x

namespace Vacates

theorem refl (x : MessageId) (g : Board) : Vacates x g g false :=
  ⟨fun _ _ _ => Iff.rfl, fun _ hk => hk, fun h => (Bool.false_ne_true h).elim, fun _ _ hk => hk⟩

theorem trans (h : Vacates x g g' gone) (h' : Vacates x g' g'' gone') :
    Vacates x g g'' (gone || gone') where
  others k p hp := (h'.others k p hp).trans (h.others k p hp)
  sub k hk := h.sub k (h'.sub k hk)
  of_gone hgone := by
    rcases Bool.or_eq_true_iff.1 hgone with hgone | hgone
    · exact h.of_gone hgone
    · obtain ⟨k, hk⟩ := h'.of_gone hgone
      exact ⟨k, h.sub k hk⟩
  of_kept hkept k hk := by
    obtain ⟨hkept, hkept'⟩ := Bool.or_eq_false_iff.1 hkept
    exact h'.of_kept hkept' k (h.of_kept hkept k hk)

/-- If no slot of `x` is left, one went if there was any. -/
theorem gone_iff (h : Vacates x g g' gone) (hfree : ∀ k, ¬ g'.HasSlotIn k x) :
    gone = true ↔ ∃ k, g.HasSlotIn k x := by
  refine ⟨h.of_gone, ?_⟩
  rintro ⟨k, hk⟩
  cases gone with
  | true => rfl
  | false => exact absurd (h.of_kept rfl k hk) (hfree k)

end Vacates

/-- Entering a message into the index leaves the trees. -/
theorem vacates_note (g : Board) (m : Message) (x : MessageId) : Vacates x g (g.note m) false := by
  have hslot {k p : MessageId} : (g.note m).HasSlotIn k p ↔ g.HasSlotIn k p :=
    hasSlotIn_congr (threads_note g m)
  exact ⟨fun _ _ _ => hslot, fun _ => hslot.1, fun hgone => (Bool.false_ne_true hgone).elim,
    fun _ _ => hslot.2⟩

/-- Detaching a reply takes it from where it hangs in its tree. -/
theorem Planted.detach_cases (h : g.Planted links loose) (id : MessageId) :
    g.detach id = (g, false) ∨ ∃ k t, g.threads[k]? = some t ∧ g.detach id =
      ({ g with threads := g.threads.insert k (t.unlink id (links id)).1 },
        (t.unlink id (links id)).2) := by
  rw [Board.detach]
  cases htree : g.treeOf? id with
  | none => exact .inl rfl
  | some found =>
    obtain ⟨k, t⟩ := found
    obtain ⟨m, hm, hk, ht⟩ := treeOf?_eq_some.1 htree
    obtain ⟨r, hr, hlink⟩ := h.reply? ht (replyIn?_eq_some.2 ⟨hm, hk⟩)
    exact .inr ⟨k, t, ht, by simp only [hr, hlink]⟩

/-- Taking a reply from where it hangs in its tree takes no slot but that of `x`, if it hangs under no
other message. -/
theorem vacates_unlink {l : Link} (ht : g.threads[k]? = some t)
    (hlink : ∀ p, l = .node p → p = x) :
    Vacates x g { g with threads := g.threads.insert k (t.unlink id l).1 } (t.unlink id l).2 := by
  constructor
  case others =>
    intro q p hp
    have hne : l ≠ .node p := fun he => hp (hlink p he)
    rw [hasSlotIn_insert, ThreadTree.mem_nodes_unlink_iff]
    split
    · next hq => simp [← hq, hasSlotIn_iff ht, hne]
    · rfl
  case sub =>
    intro q hslot
    rw [hasSlotIn_insert] at hslot
    split at hslot
    · next hq =>
      rw [← hq, hasSlotIn_iff ht]
      exact (ThreadTree.mem_nodes_unlink_iff.1 hslot).1
    · exact hslot
  case of_gone =>
    intro hgone
    obtain ⟨p, hp, hmem⟩ := ThreadTree.mem_nodes_of_unlink hgone
    exact ⟨k, t, ht, hlink p hp ▸ hmem⟩
  case of_kept =>
    intro hkept q hslot
    rw [hasSlotIn_insert, ThreadTree.mem_nodes_unlink_iff]
    split
    · next hq =>
      rw [← hq, hasSlotIn_iff ht] at hslot
      exact ⟨hslot, fun hgone => Bool.false_ne_true (hkept.symm.trans hgone.1)⟩
    · exact hslot

theorem Planted.vacates_detach (h : g.Planted links loose)
    (hlink : ∀ p, links id = .node p → p = x) :
    Vacates x g (g.detach id).1 (g.detach id).2 := by
  rcases h.detach_cases id with heq | ⟨k, t, ht, heq⟩
  · rw [heq]
    exact .refl x g
  · rw [heq]
    exact vacates_unlink ht hlink

/-- Detaches one more reply. -/
def detachNext (r : Board × Bool) (id : MessageId) : Board × Bool :=
  ((r.1.detach id).1, r.2 || (r.1.detach id).2)

theorem detachAll_eq_foldl (g : Board) (ids : List MessageId) :
    g.detachAll ids = ids.foldl detachNext (g, false) := rfl

theorem Vacates.foldl_detachNext {r : Board × Bool} (h : Vacates x g r.1 r.2)
    (hr : r.1.Planted links loose) (hlink : ∀ id ∈ ids, ∀ p, links id = .node p → p = x) :
    Vacates x g (ids.foldl detachNext r).1 (ids.foldl detachNext r).2 := by
  induction ids generalizing r loose with
  | nil => exact h
  | cons id ids ih =>
    obtain ⟨hid, hids⟩ := List.forall_mem_cons.1 hlink
    exact ih (h.trans (hr.vacates_detach hid)) (hr.detach id) hids

/-! ## Attaching them again -/

/-- A reply makes no ghost of a parent that is stored. -/
theorem Planted.attach_snd_eq_none (h : g.Planted links loose)
    (hstored : ∀ m p, g.messages[id]? = some m → m.parent = some p → p ∈ g.messages) :
    (g.attach id).2 = none := by
  refine Option.eq_none_iff_forall_ne_some.2 fun p hmade => ?_
  rw [Board.attach] at hmade
  split at hmade
  · next m k t hm htree =>
    obtain ⟨m', hm', hk, ht⟩ := treeOf?_eq_some.1 htree
    obtain rfl : m' = m := by rw [hm] at hm'; exact (Option.some.inj hm').symm
    dsimp only at hmade
    split at hmade
    · next hsnd hplace =>
      cases hmade
      obtain ⟨hparent, -, hforeign⟩ := parent_of_placement_eq_node hplace
      obtain ⟨y, hy⟩ := mem_iff_getElem?.1 (hstored m' p hm hparent)
      obtain ⟨r, hr, -⟩ := h.reply? ht (replyIn?_eq_some.2 ⟨hy, hforeign y hy⟩)
      obtain ⟨q, hq, hnot⟩ := ThreadTree.link_snd_iff.1 hsnd
      cases hplace.symm.trans hq
      exact hnot (mem_iff_getElem?.2 ⟨_, ThreadTree.reply?_eq_some hr⟩)
    · cases hmade
  · cases hmade

/-- Attaches one more reply, and lists the ghost made for it behind the others. -/
def attachNext (r : Board × List MessageId) (id : MessageId) : Board × List MessageId :=
  ((r.1.attach id).1, r.2 ++ (r.1.attach id).2.toList)

theorem attachAll_eq_foldl (g : Board) (ids : List MessageId) :
    g.attachAll ids = ids.foldl attachNext (g, []) := rfl

/-- Replies whose parents are stored make no ghosts. -/
theorem Planted.foldl_attachNext_snd (h : g.Planted links loose) (hids : ids.Nodup)
    (hloose : ∀ id ∈ ids, id ∈ loose)
    (hstored : ∀ id ∈ ids, ∀ m p, g.messages[id]? = some m → m.parent = some p → p ∈ g.messages)
    (made : List MessageId) : (ids.foldl attachNext (g, made)).2 = made := by
  induction ids generalizing g links loose made with
  | nil => rfl
  | cons id ids ih =>
    obtain ⟨hid, hnodup⟩ := List.nodup_cons.1 hids
    obtain ⟨hfirst, hrest⟩ := List.forall_mem_cons.1 hstored
    have hstep := h.attach (hloose id List.mem_cons_self)
    have hloose' : ∀ c ∈ ids, c ∈ loose \ {id} := fun c hc =>
      ⟨hloose c (List.mem_cons_of_mem _ hc), fun he => hid (he ▸ hc)⟩
    -- Attaching moves no message, so the parents are stored for the others too.
    rw [← (regrown_attach g id).messages] at hrest
    rw [List.foldl_cons, attachNext, h.attach_snd_eq_none hfirst, Option.toList_none,
      List.append_nil]
    exact ih hstep hnodup hloose' hrest made

/-! ## Filing the message -/

theorem place_of_root (h : m.thread = none) : g.place m = ((g.placeRoot m).1,
    { board := g.name, message := m.id, outcome := .inserted,
      orphansAdopted := (g.placeRoot m).2 }) := by
  rw [place, h]
  rfl

theorem place_of_reply (h : m.thread = some k) : g.place m = ((g.placeReply m k).1,
    { board := g.name, message := m.id, outcome := .inserted,
      ghostsCreated := (g.placeReply m k).2.toList
      orphaned := (g.treeOrNew k).root == .unknown }) := by
  rw [place, h]
  rfl

/-- A ghost is made of the parent that the reply is placed under, if that has no slot. -/
theorem placeReply_snd_eq_some_iff : (g.placeReply m k).2 = some p ↔
    g.placement m k = .node p ∧ p ≠ m.id ∧ ¬ g.HasSlotIn k p := by
  have hsnd : ((g.treeOrNew k).insertReply m.id ⟨m.created, m.author, g.placement m k, ∅⟩).2 =
      true ↔ ∃ p, g.placement m k = .node p ∧ p ≠ m.id ∧ p ∉ (g.treeOrNew k).nodes :=
    ThreadTree.insertReply_snd_iff
  simp only [mem_nodes_treeOrNew] at hsnd
  rw [placeReply]
  dsimp only
  split
  · next q hmade hplace =>
    obtain ⟨q', hq', hne, hslot⟩ := hsnd.1 hmade
    cases hplace.symm.trans hq'
    rw [hplace]
    grind
  · next hnot =>
    refine iff_of_false (by simp) ?_
    rintro ⟨hplace, hne, hslot⟩
    exact hnot p (hsnd.2 ⟨p, hplace, hne, hslot⟩) hplace

/-- The root of a thread has never been seen, be there a tree for it or not. -/
theorem Planted.root_treeOrNew_iff (h : g.Planted links loose) :
    (g.treeOrNew k).root = .unknown ↔ ¬ g.Starts k ∧ k ∉ g.deletedRoots := by
  have hnew := h.treeOrNew k
  have hself : { g with
      threads := g.threads.insert k (g.treeOrNew k) }.threads[k]? = some (g.treeOrNew k) :=
    Std.ExtTreeMap.getElem?_insert_self
  have hstored : (g.treeOrNew k).root = .stored ↔ g.Starts k := hnew.stored k _ hself
  have hdeleted : k ∈ g.deletedRoots ↔ (g.treeOrNew k).root = .deleted := by
    rw [hnew.deleted k, hself]
    simp
  rw [← hstored, hdeleted]
  cases (g.treeOrNew k).root <;> simp

theorem Planted.mem_replies_treeOrNew (h : g.Planted links loose) :
    x ∈ (g.treeOrNew k).replies.map (·.1) ↔ ∃ y, g.replyIn? k x = some y := by
  have hself : { g with
      threads := g.threads.insert k (g.treeOrNew k) }.threads[k]? = some (g.treeOrNew k) :=
    Std.ExtTreeMap.getElem?_insert_self
  have hbare : (g.treeOrNew k).bare? x = (g.replyIn? k x).map _ := (h.treeOrNew k).bare k _ hself x
  have hsome : ((g.treeOrNew k).bare? x).isSome ↔ ∃ r, (g.treeOrNew k).reply? x = some r := by
    rw [ThreadTree.bare?_eq_map, Option.isSome_map, Option.isSome_iff_exists]
  rw [hbare, Option.isSome_map, Option.isSome_iff_exists] at hsome
  rw [hsome, List.mem_map]
  simp only [Prod.exists, exists_and_right, exists_eq_right, ThreadTree.mem_replies]

/-! ## Ghosts and absolute orphans -/

/-- A ghost stands for `p` in the tree of thread `k`. -/
def HasGhostIn (g : Board) (k p : MessageId) : Prop :=
  ∃ t gh, g.threads[k]? = some t ∧ t.ghost? p = some gh

/-- The arrival of `m` calls for a ghost of `p` in the tree of thread `k`. -/
def CallsFor (g : Board) (m : Message) (k p : MessageId) : Prop :=
  m.thread = some k ∧ m.parent = some p ∧ p ≠ k ∧ p ∉ g.messages

namespace Coherent

/-- Slots are those of ghosts and of stored replies. -/
theorem hasSlotIn_iff (h : g.Coherent) :
    g.HasSlotIn k p ↔ g.HasGhostIn k p ∨ ∃ y, g.replyIn? k p = some y := by
  constructor
  · rintro ⟨t, ht, hp⟩
    obtain ⟨r | gh, hslot⟩ := mem_iff_getElem?.1 hp
    · obtain ⟨y, hy, hk, -⟩ := h.stored_of_reply? ht (by rw [ThreadTree.reply?, hslot]; rfl)
      exact .inr ⟨y, replyIn?_eq_some.2 ⟨hy, hk⟩⟩
    · exact .inl ⟨t, gh, ht, ThreadTree.ghost?_eq_some_iff.2 hslot⟩
  · rintro (⟨t, gh, ht, hgh⟩ | ⟨y, hy⟩)
    · exact ⟨t, ht, mem_iff_getElem?.2 ⟨_, ThreadTree.ghost?_eq_some_iff.1 hgh⟩⟩
    · exact h.planted.hasSlotIn_of_reply hy

/-- The slots of what is not stored are those of ghosts. -/
theorem hasSlotIn_iff_of_not_mem (h : g.Coherent) (hp : p ∉ g.messages) :
    g.HasSlotIn k p ↔ g.HasGhostIn k p := by
  refine h.hasSlotIn_iff.trans (or_iff_left ?_)
  rintro ⟨y, hy⟩
  exact hp (mem_iff_getElem?.2 ⟨y, (replyIn?_eq_some.1 hy).1⟩)

/-- After an arrival the ghosts are the old ones without those of the message, and the one that the
message calls for. -/
theorem hasGhostIn_insert (h : g.Coherent) (hm : g.messages[m.id]? = none)
    (htargets : m.targets g.name) (hself : m.namesItself = false) :
    (g.insert m).1.HasGhostIn k p ↔ (g.HasGhostIn k p ∧ p ≠ m.id) ∨ g.CallsFor m k p := by
  have hparent := Message.parent_ne_of_namesItself hself
  rw [HasGhostIn, (h.insert hm htargets hself).exists_ghost?_iff, HasGhostIn, h.exists_ghost?_iff]
  simp only [MissesParent, CallsFor, messages_insert, Std.ExtTreeMap.mem_insert,
    Std.ExtTreeMap.getElem?_insert, Std.LawfulEqOrd.compare_eq_iff_eq]
  constructor
  · rintro ⟨hne, hnot, id, y, hy, hk, hnames⟩
    split at hy
    · next he => grind
    · next he => grind
  · rintro (⟨⟨hne, hnot, id, y, hy, hk, hnames⟩, hp⟩ | ⟨hk, hnames, hne, hnot⟩)
    · exact ⟨hne, by grind, id, y, by grind, hk, hnames⟩
    · exact ⟨hne, by grind, m.id, m, by simp, hk, hnames⟩

/-- The absolute orphans are the inconsistent messages and the replies whose root is neither stored nor
deleted. -/
theorem mem_absoluteOrphans (h : g.Coherent) : x ∈ g.absoluteOrphans ↔
    ∃ y : Message, g.messages[x]? = some y ∧ (y.isInconsistent = true ∨
      ∃ k, y.thread = some k ∧ ¬ g.Starts k ∧ k ∉ g.deletedRoots) := by
  rw [← h.isAbsoluteOrphan_iff, isAbsoluteOrphan, Bool.or_eq_true, Std.ExtTreeSet.contains_iff_mem,
    h.inconsistent, Option.any_eq_true]
  simp only [beq_iff_eq, Option.bind_eq_some_iff]
  constructor
  · rintro (⟨y, hy, hinconsistent⟩ | ⟨t, ⟨k, ⟨y, hy, hk⟩, ht⟩, hroot⟩)
    · exact ⟨y, hy, .inl hinconsistent⟩
    · exact ⟨y, hy, .inr ⟨k, hk, (h.root_unknown_iff ht).1 hroot⟩⟩
  · rintro ⟨y, hy, hinconsistent | ⟨k, hk, hroot⟩⟩
    · exact .inl ⟨y, hy, hinconsistent⟩
    · obtain ⟨t, -, ht, -⟩ := h.exists_reply? hy hk
      exact .inr ⟨t, ⟨k, ⟨y, hy, hk⟩, ht⟩, (h.root_unknown_iff ht).2 hroot⟩

/-- The absolute orphans that an arrival adopts are the replies to it, if it is a root that has never
been seen. -/
theorem adopted_iff (h : g.Coherent) (hm : g.messages[m.id]? = none) (htargets : m.targets g.name)
    (hself : m.namesItself = false) :
    x ∈ g.absoluteOrphans ∧ x ∉ (g.insert m).1.absoluteOrphans ↔
      m.thread = none ∧ m.id ∉ g.deletedRoots ∧ ∃ y, g.replyIn? m.id x = some y := by
  have hunseen : ¬ g.Starts m.id := by
    rintro ⟨y, hy, -⟩
    rw [hm] at hy
    cases hy
  have hne {y : Message} (hy : g.messages[x]? = some y) : m.id ≠ x := by
    rintro rfl
    rw [hm] at hy
    cases hy
  rw [h.mem_absoluteOrphans, (h.insert hm htargets hself).mem_absoluteOrphans]
  simp only [messages_insert, Std.ExtTreeMap.getElem?_insert, Std.LawfulEqOrd.compare_eq_iff_eq,
    starts_insert (messages_insert g m), mem_deletedRoots_insert, replyIn?_eq_some]
  constructor
  · rintro ⟨⟨y, hy, horphan⟩, hgone⟩
    simp only [if_neg (hne hy), hy] at hgone
    grind
  · rintro ⟨hroot, hdeleted, y, hy, hk⟩
    refine ⟨⟨y, hy, .inr ⟨m.id, hk, hunseen, hdeleted⟩⟩, ?_⟩
    simp only [if_neg (hne hy), hy]
    grind [Message.isInconsistent]

/-! ## The report -/

/-- Only slots of the message go while the board is made ready for it. -/
theorem vacates_readied (h : g.Coherent) (hparent : m.parent ≠ some m.id) :
    Vacates m.id g (g.readied m).1 (g.readied m).2 := by
  rw [readied, detachAll_eq_foldl]
  refine (vacates_note g m m.id).foldl_detachNext (r := (g.note m, false)) (h.planted_note m)
    fun c hc p hp => ?_
  obtain ⟨y, hy, hthread, hnames⟩ := (h.mem_waiting hparent).1 hc
  obtain ⟨k, hk⟩ := Option.isSome_iff_exists.1 hthread
  exact Option.some.inj ((parent_of_home_eq_node hy hk hp).1.symm.trans hnames)

/-- A ghost went if there was one for the message. -/
theorem readied_snd_iff (h : g.Coherent) (hm : g.messages[m.id]? = none)
    (hparent : m.parent ≠ some m.id) : (g.readied m).2 = true ↔ ∃ k, g.HasGhostIn k m.id := by
  have hnot : m.id ∉ g.messages := by simp [mem_iff_getElem?, hm]
  simp only [← h.hasSlotIn_iff_of_not_mem hnot]
  refine (h.vacates_readied hparent).gone_iff ?_
  rintro k ⟨t, ht, hslot⟩
  obtain ⟨slot, hslot⟩ := mem_iff_getElem?.1 hslot
  cases (h.slot_readied_eq_none hm hparent ht).symm.trans hslot

/-- The replies that are attached again make no ghosts. -/
theorem insert_snd (h : g.Coherent) (hm : g.messages[m.id]? = none)
    (hparent : m.parent ≠ some m.id) : (g.insert m).2 =
      { ((g.readied m).1.place m).2 with
        ghostResolved := (g.readied m).2
        inconsistent := m.isInconsistent } := by
  have hmade : ((g.filed m).attachAll ((g.note m).waitingOn m.id)).2 = [] := by
    rw [attachAll_eq_foldl]
    refine (h.planted_filed hm hparent).foldl_attachNext_snd (nodup_waitingOn _ m.id)
      (fun c hc => hc) (fun c hc y p hy hp => ?_) []
    obtain ⟨x, hx, -, hnames⟩ := (h.mem_waiting hparent).1 hc
    have hne : m.id ≠ c := fun he => h.not_mem_waiting hm hparent (he ▸ hc)
    simp only [messages_filed, Std.ExtTreeMap.getElem?_insert, Std.LawfulEqOrd.compare_eq_iff_eq,
      if_neg hne, hx] at hy
    cases hy
    cases hp.symm.trans hnames
    rw [messages_filed]
    exact Std.ExtTreeMap.mem_insert_self
  have heq : (g.insert m).2 = { ((g.readied m).1.place m).2 with
      ghostsCreated := ((g.readied m).1.place m).2.ghostsCreated ++
        ((g.filed m).attachAll ((g.note m).waitingOn m.id)).2
      ghostResolved := (g.readied m).2
      inconsistent := m.isInconsistent } := rfl
  rw [heq, hmade, List.append_nil]

theorem insert_snd_of_root (h : g.Coherent) (hm : g.messages[m.id]? = none)
    (hparent : m.parent ≠ some m.id) (hthread : m.thread = none) : (g.insert m).2 =
      { board := g.name, message := m.id, outcome := .inserted
        ghostResolved := (g.readied m).2
        orphansAdopted := ((g.readied m).1.placeRoot m).2
        inconsistent := m.isInconsistent } := by
  rw [h.insert_snd hm hparent, place_of_root hthread, name_readied]

theorem insert_snd_of_reply (h : g.Coherent) (hm : g.messages[m.id]? = none)
    (hparent : m.parent ≠ some m.id) (hk : m.thread = some k) : (g.insert m).2 =
      { board := g.name, message := m.id, outcome := .inserted
        ghostsCreated := ((g.readied m).1.placeReply m k).2.toList
        ghostResolved := (g.readied m).2
        inconsistent := m.isInconsistent
        orphaned := ((g.readied m).1.treeOrNew k).root == .unknown } := by
  rw [h.insert_snd hm hparent, place_of_reply hk, name_readied]

/-- The ghost made for an arriving reply is the one that it calls for, unless there is one. -/
theorem placeReply_readied_iff (h : g.Coherent) (hparent : m.parent ≠ some m.id)
    (hk : m.thread = some k) : ((g.readied m).1.placeReply m k).2 = some p ↔
      g.CallsFor m k p ∧ ¬ g.HasGhostIn k p := by
  have hvacates := h.vacates_readied hparent
  have hplace : (g.readied m).1.placement m k = g.placement m k :=
    congrFun (congrFun (placement_congr (messages_readied g m)) m) k
  rw [placeReply_snd_eq_some_iff, hplace]
  constructor
  · -- Making ready took only slots of the message itself, so none was there before either.
    rintro ⟨hplaced, hne, hslot⟩
    rw [hvacates.others k p hne, h.hasSlotIn_iff, not_or] at hslot
    obtain ⟨hnames, hother, hforeign⟩ := parent_of_placement_eq_node hplaced
    refine ⟨⟨hk, hnames, hother, fun hp => ?_⟩, hslot.1⟩
    obtain ⟨y, hy⟩ := mem_iff_getElem?.1 hp
    exact hslot.2 ⟨y, replyIn?_eq_some.2 ⟨hy, hforeign y hy⟩⟩
  · rintro ⟨⟨-, hnames, hother, hnot⟩, hghost⟩
    have hne : p ≠ m.id := fun he => hparent (he ▸ hnames)
    have hnone : g.messages[p]? = none := Std.ExtTreeMap.getElem?_eq_none hnot
    refine ⟨by simp [placement, hnames, hother, hnone], hne, ?_⟩
    rwa [hvacates.others k p hne, h.hasSlotIn_iff_of_not_mem hnot]

/-- A root takes in the replies of its thread, unless they have lost a root already. -/
theorem placeRoot_readied (h : g.Coherent) (hm : g.messages[m.id]? = none)
    (htargets : m.targets g.name) (hself : m.namesItself = false) (hthread : m.thread = none) :
    ((g.readied m).1.placeRoot m).2 =
      (g.absoluteOrphans \ (g.insert m).1.absoluteOrphans).size := by
  have hready := h.planted_readied m
  have hunknown : ((g.readied m).1.treeOrNew m.id).root = .unknown ↔ m.id ∉ g.deletedRoots := by
    rw [hready.root_treeOrNew_iff, deletedRoots_readied, Starts, messages_readied, hm]
    simp
  have hadopted (x : MessageId) : x ∈ g.absoluteOrphans \ (g.insert m).1.absoluteOrphans ↔
      m.id ∉ g.deletedRoots ∧ x ∈ ((g.readied m).1.treeOrNew m.id).replies.map (·.1) := by
    rw [Std.ExtTreeSet.mem_diff_iff, h.adopted_iff hm htargets hself, hready.mem_replies_treeOrNew,
      replyIn?_readied]
    exact and_iff_right hthread
  -- The replies of the tree are listed without repeats, so their number is the size of their set.
  rw [placeRoot]
  dsimp only
  split
  · next hroot =>
    have hroot := hunknown.1 (beq_iff_eq.1 hroot)
    have heq : g.absoluteOrphans \ (g.insert m).1.absoluteOrphans =
        .ofList (((g.readied m).1.treeOrNew m.id).replies.map (·.1)) :=
      Std.ExtTreeSet.ext_mem fun x => by rw [hadopted, mem_ofList, and_iff_right hroot]
    have hdistinct : (((g.readied m).1.treeOrNew m.id).replies.map (·.1)).Pairwise
        fun a b => ¬ compare a b = .eq :=
      (ThreadTree.nodup_replies _).imp fun hne he => hne (Std.LawfulEqOrd.eq_of_compare he)
    rw [heq, Std.ExtTreeSet.size_ofList hdistinct, List.length_map, ThreadTree.replyCount]
  · next hroot =>
    have heq : g.absoluteOrphans \ (g.insert m).1.absoluteOrphans = ∅ := by
      refine Std.ExtTreeSet.ext_mem fun x => iff_of_false ?_ Std.ExtTreeSet.not_mem_empty
      rw [hadopted, ← hunknown]
      exact fun hx => hroot (beq_iff_eq.2 hx.1)
    rw [heq, Std.ExtTreeSet.size_empty]

/-- A reply adopts no orphans. -/
theorem diff_absoluteOrphans_of_reply (h : g.Coherent) (hm : g.messages[m.id]? = none)
    (htargets : m.targets g.name) (hself : m.namesItself = false) (hk : m.thread = some k) :
    g.absoluteOrphans \ (g.insert m).1.absoluteOrphans = ∅ := by
  refine Std.ExtTreeSet.ext_mem fun x => iff_of_false ?_ Std.ExtTreeSet.not_mem_empty
  rw [Std.ExtTreeSet.mem_diff_iff, h.adopted_iff hm htargets hself, hk]
  simp

/-- Whether the message is an absolute orphan after its arrival was settled before. -/
theorem orphan_insert_iff (h : g.Coherent) (hm : g.messages[m.id]? = none)
    (htargets : m.targets g.name) (hself : m.namesItself = false) :
    m.id ∈ (g.insert m).1.absoluteOrphans ↔ m.isInconsistent = true ∨
      ∃ k, m.thread = some k ∧ ¬ g.Starts k ∧ k ∉ g.deletedRoots := by
  rw [(h.insert hm htargets hself).mem_absoluteOrphans]
  simp only [messages_insert, Std.ExtTreeMap.getElem?_insert_self, Option.some.injEq,
    exists_eq_left', starts_insert (messages_insert g m), mem_deletedRoots_insert]
  grind [Starts]

end Coherent

end Board

/-- The report says what the arrival of `m` came to, no more and no less. -/
structure IngestReport.Describes (r : IngestReport) (g g' : Board) (m : Message) : Prop where
  board : r.board = g.name
  message : r.message = m.id
  outcome : r.outcome = .inserted
  ghostResolved : r.ghostResolved = true ↔ ∃ k, g.HasGhostIn k m.id
  /-- The ghosts afterwards. -/
  ghosts : ∀ k p, g'.HasGhostIn k p ↔ (g.HasGhostIn k p ∧ p ≠ m.id) ∨ g.CallsFor m k p
  ghostsCreated : ∀ k p, g.CallsFor m k p → ¬ g.HasGhostIn k p → r.ghostsCreated = [p]
  no_ghostsCreated : (∀ k p, g.CallsFor m k p → g.HasGhostIn k p) → r.ghostsCreated = []
  orphansAdopted : r.orphansAdopted = (g.absoluteOrphans \ g'.absoluteOrphans).size
  /-- Whether the message is an absolute orphan itself. -/
  orphan : m.id ∈ g'.absoluteOrphans ↔ r.orphaned = true ∨ r.inconsistent = true

namespace Board

variable {g : Board} {m : Message}

theorem Coherent.describes_insert (h : g.Coherent) (hm : g.messages[m.id]? = none)
    (htargets : m.targets g.name) (hself : m.namesItself = false) :
    (g.insert m).2.Describes g (g.insert m).1 m := by
  have hparent := Message.parent_ne_of_namesItself hself
  have hresolved := h.readied_snd_iff hm hparent
  have horphan := h.orphan_insert_iff hm htargets hself
  cases hthread : m.thread with
  | none =>
    have hnone (k p : MessageId) : ¬ g.CallsFor m k p := fun hcalls => by
      cases hthread.symm.trans hcalls.1
    have hreport := h.insert_snd_of_root hm hparent hthread
    constructor
    case ghosts => exact fun k p => h.hasGhostIn_insert hm htargets hself
    case ghostsCreated => exact fun k p hcalls => absurd hcalls (hnone k p)
    case orphansAdopted => rw [hreport, h.placeRoot_readied hm htargets hself hthread]
    case orphan =>
      rw [horphan, hreport, hthread]
      simp
    all_goals simp only [hreport, hresolved, implies_true]
  | some k =>
    have hmade (p : MessageId) := h.placeReply_readied_iff (p := p) hparent hthread
    have hreport := h.insert_snd_of_reply hm hparent hthread
    have hroot := (h.planted_readied m).root_treeOrNew_iff (k := k)
    rw [Starts, messages_readied, deletedRoots_readied, ← Starts] at hroot
    constructor
    case ghosts => exact fun k p => h.hasGhostIn_insert hm htargets hself
    case ghostsCreated =>
      intro q p hcalls hghost
      cases hthread.symm.trans hcalls.1
      rw [hreport, (hmade p).2 ⟨hcalls, hghost⟩, Option.toList_some]
    case no_ghostsCreated =>
      intro hcalls
      have hnone : ((g.readied m).1.placeReply m k).2 = none :=
        Option.eq_none_iff_forall_ne_some.2 fun p hp =>
          ((hmade p).1 hp).2 (hcalls k p ((hmade p).1 hp).1)
      rw [hreport, hnone, Option.toList_none]
    case orphansAdopted =>
      rw [hreport, h.diff_absoluteOrphans_of_reply hm htargets hself hthread,
        Std.ExtTreeSet.size_empty]
    case orphan =>
      rw [horphan, hreport, hthread, beq_iff_eq, hroot]
      simp [or_comm]
    all_goals simp only [hreport, hresolved]

/-- Whatever was done to a board before, the arrival of a message that targets it, is not stored and
does not name itself is accepted, and the report describes what it came to: whether it filled a ghost in
some tree, which ghosts there are afterwards and which of them is new, how many absolute orphans it
adopted, and whether it is one itself. -/
theorem run_ingest_reports (name : BoardName) {ops : List Op} (hops : ∀ op ∈ ops, op.Admissible)
    {m : Message} (hself : m.namesItself = false) (htargets : m.targets name = true)
    (hnew : m.id ∉ (run name ops).messages) :
    let before := run name ops
    let after := run name (ops ++ [.ingest m])
    ∃ r, before.ingest m = .ok (after, r) ∧ r.Describes before after m := by
  intro before after
  obtain ⟨h, hname⟩ := coherent_run name hops
  have hm : before.messages[m.id]? = none := Std.ExtTreeMap.getElem?_eq_none hnew
  have htargets' : m.targets before.name = true := by rw [hname, htargets]
  have hafter : after = (before.insert m).1 := by
    show run name (ops ++ [.ingest m]) = _
    rw [run, List.foldl_concat]
    exact ingested_eq_insert htargets' hm
  refine ⟨(before.insert m).2, ?_, hafter ▸ h.describes_insert hm htargets' hself⟩
  rw [ingest_eq_insert htargets' hm, hafter]

/-- The second of the ring fills the ghost that the first waits for, in a thread never seen. -/
theorem ring_ingest_reports : (∀ op ∈ Ring.ops.take 1, op.Admissible) ∧
    Ring.second.namesItself = false ∧ Ring.second.targets Ring.board = true ∧
    Ring.second.id ∉ (run Ring.board (Ring.ops.take 1)).messages ∧
    let before := run Ring.board (Ring.ops.take 1)
    let after := run Ring.board (Ring.ops.take 1 ++ [.ingest Ring.second])
    ∃ r, before.ingest Ring.second = .ok (after, r) ∧ r.Describes before after Ring.second ∧
      r = { board := Ring.board, message := Ring.second.id, outcome := .inserted,
            ghostResolved := true, orphaned := true } := by
  have hops : ∀ op ∈ Ring.ops.take 1, op.Admissible := by decide
  have hself : Ring.second.namesItself = false := by decide
  have htargets : Ring.second.targets Ring.board = true := by decide
  have hnew : Ring.second.id ∉ (run Ring.board (Ring.ops.take 1)).messages := by decide +kernel
  obtain ⟨r, hr, hdescribes⟩ := run_ingest_reports Ring.board hops hself htargets hnew
  refine ⟨hops, hself, htargets, hnew, r, hr, hdescribes, ?_⟩
  have hreport : ((run Ring.board (Ring.ops.take 1)).ingest Ring.second).toOption.map (·.2) =
      some { board := Ring.board, message := Ring.second.id, outcome := .inserted,
             ghostResolved := true, orphaned := true } := by decide +kernel
  rw [hr] at hreport
  exact Option.some.inj hreport

end Board

end Noticeboard
