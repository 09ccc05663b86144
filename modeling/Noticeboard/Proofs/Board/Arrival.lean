import Noticeboard.Proofs.Board.Coherent

/-!
# Arrivals keep boards coherent

`Planted.place` files a message while the replies that wait for it are loose, and
`Coherent.ingested` puts the steps of an arrival together: after the waiting replies and the reply
that cuts a new loop are placed, everything hangs where it belongs.
-/

namespace Noticeboard

theorem Message.parent_ne_of_namesItself {m : Message} (h : m.namesItself = false) :
    m.parent ≠ some m.id := by
  have hself : m.parent ≠ some m.id ∧ m.thread ≠ some m.id := by
    simpa [Message.namesItself] using h
  exact hself.1

namespace Board

variable {g g' : Board} {m : Message} {id c p k : MessageId} {t : ThreadTree}
  {links : MessageId → Link} {loose : Set MessageId}

/-! ## Filing a message -/

theorem note_eq (g : Board) (m : Message) :
    g.note m =
      { g with repliesTo := (g.note m).repliesTo, inconsistent := (g.note m).inconsistent } := by
  rw [note]
  split <;> rfl

theorem place_eq (g : Board) (m : Message) :
    (g.place m).1 =
      { g with
          messages := g.messages.insert m.id m
          threads := (g.place m).1.threads
          deletedRoots := (g.place m).1.deletedRoots } := by
  rw [place]
  split <;> rfl

theorem replyIn?_insert (h : g'.messages = g.messages.insert m.id m) (k id : MessageId) :
    g'.replyIn? k id =
      if m.id = id then if m.thread = some k then some m else none else g.replyIn? k id := by
  simp only [replyIn?, h, Std.ExtTreeMap.getElem?_insert, Std.LawfulEqOrd.compare_eq_iff_eq]
  split
  · simp [Option.filter]
  · rfl

theorem starts_insert (h : g'.messages = g.messages.insert m.id m) (k : MessageId) :
    g'.Starts k ↔ if m.id = k then m.thread = none else g.Starts k := by
  simp only [Starts, h, Std.ExtTreeMap.getElem?_insert, Std.LawfulEqOrd.compare_eq_iff_eq]
  split <;> simp

/-- An arrival changes no thread but its own. -/
theorem agreeOutside_insert (hm : g.messages[m.id]? = none)
    (hmessages : g'.messages = g.messages.insert m.id m)
    (hroots : ∀ q, q ≠ treeKey m → (q ∈ g'.deletedRoots ↔ q ∈ g.deletedRoots)) :
    AgreeOutside (treeKey m) g g' := by
  refine ⟨fun q id hq => ?_, fun q hq => ?_, hroots⟩
  · rw [treeKey] at hq
    rw [replyIn?_insert hmessages]
    split
    · next he => grind [replyIn?]
    · rfl
  · rw [treeKey] at hq
    rw [starts_insert hmessages]
    split
    · next he => grind [Starts]
    · exact Iff.rfl

/-- A thread without a tree may be given one. -/
theorem Planted.treeOrNew (h : g.Planted links loose) (k : MessageId) :
    { g with threads := g.threads.insert k (g.treeOrNew k) }.Planted links loose := by
  cases ht : g.threads[k]? with
  | some t =>
    have htree : g.treeOrNew k = t := by simp [Board.treeOrNew, ht]
    rw [htree]
    exact h.setTree ht ⟨rfl, rfl⟩ (h.knit k t ht) (h.bare k t ht) fun _ _ _ _ _ => ⟨rfl, Iff.rfl⟩
  | none =>
    have htree : g.treeOrNew k = .new k .unknown := by simp [Board.treeOrNew, ht]
    have hnone (id : MessageId) (m : Message) (hm : g.messages[id]? = some m) :
        m.thread.getD id ≠ k := by
      rintro rfl
      obtain ⟨t, ht'⟩ := h.tree_of id m hm
      rw [ht] at ht'
      cases ht'
    have hreply (id : MessageId) : g.replyIn? k id = none := by
      refine Option.eq_none_iff_forall_ne_some.2 fun m hm => ?_
      obtain ⟨hm, hk⟩ := replyIn?_eq_some.1 hm
      exact hnone id m hm (by simp [hk])
    rw [htree]
    refine h.replace ⟨fun _ _ _ => rfl, fun _ _ => Iff.rfl, fun _ _ => Iff.rfl⟩ rfl rfl ?_
      (fun id => ?_) ?_ ?_ fun _ _ _ _ _ => ⟨rfl, Iff.rfl⟩
    · constructor <;> simp [ThreadTree.new, ThreadTree.linkOf?, ThreadTree.bare?]
    · change ThreadTree.bare? _ id = (g.replyIn? k id).map _
      rw [hreply]
      simp [ThreadTree.new, ThreadTree.bare?]
    · refine iff_of_false (by simp [ThreadTree.new]) ?_
      rintro ⟨m, hm, hthread⟩
      exact hnone k m hm (by simp [hthread])
    · refine iff_of_false ?_ (by simp [ThreadTree.new])
      rw [h.deleted, ht]
      simp

/-- Filing the root of a thread. -/
theorem Planted.placeRoot (h : g.Planted links loose) (hm : g.messages[m.id]? = none)
    (ht : m.thread = none) : (g.placeRoot m).1.Planted links loose := by
  have hself : { g with
      threads := g.threads.insert m.id (g.treeOrNew m.id) }.threads[m.id]? = some _ :=
    Std.ExtTreeMap.getElem?_insert_self
  have hnew := h.treeOrNew m.id
  have hkey : treeKey m = m.id := by simp [treeKey, ht]
  have hagree : AgreeOutside (treeKey m) g (g.placeRoot m).1 := by
    refine agreeOutside_insert hm rfl fun q hq => ?_
    rw [hkey] at hq
    simp [Board.placeRoot, hq.symm]
  rw [hkey] at hagree
  have hreply (id : MessageId) : (g.placeRoot m).1.replyIn? m.id id = g.replyIn? m.id id := by
    rw [replyIn?_insert (g := g) (m := m) rfl]
    split
    · next he => simp [replyIn?, ← he, hm, ht]
    · rfl
  have hid : (g.treeOrNew m.id).id = m.id := hnew.tree_id _ _ hself
  refine h.replace hagree rfl hid ((hnew.knit _ _ hself).setRoot _)
    (fun id => ?_) (iff_of_true rfl ⟨m, by simp [Board.placeRoot], ht⟩) ?_
    fun _ _ _ _ _ => ⟨rfl, Iff.rfl⟩
  · rw [hreply]
    exact hnew.bare _ _ hself id
  · simp [Board.placeRoot]

/-- Filing a reply. No slot with its id is left. -/
theorem Planted.placeReply (h : g.Planted links loose) (hm : g.messages[m.id]? = none)
    (ht : m.thread = some k) (hloose : m.id ∉ loose)
    (hfree : ∀ (k : MessageId) (t : ThreadTree), g.threads[k]? = some t → t.nodes[m.id]? = none) :
    (g.placeReply m k).1.Planted (Function.update links m.id (g.placement m k)) loose := by
  have hself : { g with
      threads := g.threads.insert k (g.treeOrNew k) }.threads[k]? = some _ :=
    Std.ExtTreeMap.getElem?_insert_self
  have hnew := h.treeOrNew k
  have hkey : treeKey m = k := by simp [treeKey, ht]
  have hagree : AgreeOutside (treeKey m) g (g.placeReply m k).1 :=
    agreeOutside_insert hm rfl fun q _ => Iff.rfl
  rw [hkey] at hagree
  have hslot : (g.treeOrNew k).nodes[m.id]? = none := by
    cases hk : g.threads[k]? with
    | none => simp [Board.treeOrNew, hk, ThreadTree.new]
    | some t => simpa [Board.treeOrNew, hk] using hfree k t hk
  have hreply (id : MessageId) : (g.placeReply m k).1.replyIn? k id =
      if m.id = id then some m else g.replyIn? k id := by
    rw [replyIn?_insert (g := g) (m := m) rfl, if_pos ht]
  let r : Reply := ⟨m.created, m.author, g.placement m k, ∅⟩
  have hthreads : (g.placeReply m k).1.threads =
      g.threads.insert k ((g.treeOrNew k).insertReply m.id r).1 := rfl
  have hroot := (g.treeOrNew k).root_insertReply m.id r
  have hknit := (hnew.knit _ _ hself).insertReply (r := r) hslot rfl
  rw [Set.sdiff_singleton_eq_self hloose] at hknit
  refine h.replace hagree hthreads (hroot.1.trans (hnew.tree_id _ _ hself)) hknit (fun id => ?_) ?_ ?_
    fun id x q _ hx => ⟨Function.update_of_ne ?_ _ _, Iff.rfl⟩
  · rw [ThreadTree.bare?_insertReply, hreply, hnew.bare _ _ hself id]
    split
    · next he => simp [he, r]
    · next he => rw [Function.update_of_ne (Ne.symm he)]; rfl
  · have hstarts : (g.placeReply m k).1.Starts k ↔ _ := starts_insert (g := g) (m := m) rfl k
    rw [hroot.2, hnew.stored _ _ hself, hstarts]
    split
    · next he => simp [Starts, ← he, hm, ht]
    · exact Iff.rfl
  · rw [hroot.2]
    have hk := hnew.deleted k
    rw [hself] at hk
    simpa [Board.placeReply] using hk
  · rintro rfl
    obtain ⟨hx, -⟩ := replyIn?_eq_some.1 hx
    rw [hm] at hx
    cases hx

/-- Filing a message. -/
theorem Planted.place (h : g.Planted links loose) (hm : g.messages[m.id]? = none)
    (hloose : m.id ∉ loose)
    (hfree : ∀ (k : MessageId) (t : ThreadTree), g.threads[k]? = some t → t.nodes[m.id]? = none) :
    (g.place m).1.Planted
      (Function.update links m.id ((m.thread.map (g.placement m)).getD .root)) loose := by
  rw [Board.place]
  cases ht : m.thread with
  | none =>
    refine (h.placeRoot hm ht).congr fun id x k hx => ⟨Function.update_of_ne ?_ _ _, Iff.rfl⟩
    rintro rfl
    obtain ⟨hx, hk⟩ := replyIn?_eq_some.1 hx
    rw [Board.placeRoot] at hx
    simp only [Std.ExtTreeMap.getElem?_insert_self, Option.some.injEq] at hx
    rw [← hx, ht] at hk
    cases hk
  | some k => exact h.placeReply hm ht hloose hfree

theorem mem_threads_place (g : Board) (m : Message) :
    k ∈ (g.place m).1.threads ↔ treeKey m = k ∨ k ∈ g.threads := by
  rw [Board.place, treeKey]
  cases m.thread <;> simp [Board.placeRoot, Board.placeReply]

/-! ## The index -/

/-- Entering a message in the index goes with storing it. -/
theorem Indexed.store (h : g.Indexed) (hm : g.messages[m.id]? = none) (htargets : m.targets g.name)
    (hself : m.namesItself = false) (hname : g'.name = g.name)
    (hmessages : g'.messages = g.messages.insert m.id m)
    (hreplies : g'.repliesTo = (g.note m).repliesTo)
    (hinconsistent : g'.inconsistent = (g.note m).inconsistent) : g'.Indexed := by
  have hget {q : MessageId} {x : Message} : g'.messages[q]? = some x ↔
      (q = m.id ∧ x = m) ∨ g.messages[q]? = some x := by
    simp only [hmessages, Std.ExtTreeMap.getElem?_insert, Std.LawfulEqOrd.compare_eq_iff_eq]
    grind
  have hwaits (p c : MessageId) : g'.Waits p c ↔ (g.note m).Waits p c := by
    rw [Waits, Waits, hreplies]
  constructor
  · intro q x hx
    rcases hget.1 hx with ⟨rfl, rfl⟩ | hx
    · rfl
    · exact h.keyed q x hx
  · intro q x hx
    rw [hname]
    rcases hget.1 hx with ⟨-, rfl⟩ | hx
    · exact htargets
    · exact h.targets q x hx
  · intro q x hx
    rcases hget.1 hx with ⟨-, rfl⟩ | hx
    · exact hself
    · exact h.no_self q x hx
  · intro p c
    rw [hwaits, waits_note, h.waits]
    simp only [hget]
    grind
  · intro p ids hids
    rw [hreplies] at hids
    exact h.noneIdle.note m p ids hids
  · intro c
    rw [hinconsistent, mem_inconsistent_note, h.inconsistent]
    simp only [hget]
    grind

/-! ## A whole arrival -/

/-- An id that no reply names has no slot. -/
theorem Planted.slot_eq_none (h : g.Planted g.home loose) (hid : g.messages[id]? = none)
    (hloose : ∀ c m, g.messages[c]? = some m → m.RepliesTo id → c ∈ loose)
    (ht : g.threads[k]? = some t) : t.nodes[id]? = none := by
  have hknit := h.knit k t ht
  rcases hslot : t.nodes[id]? with _ | r | gh
  · rfl
  · have hbare := h.bare k t ht id
    rw [replyIn?, hid, ThreadTree.bare?_of_reply hslot] at hbare
    cases hbare
  · obtain ⟨⟨c, hc, -⟩, -⟩ := hknit.dated id gh hslot
    obtain ⟨hc, hlink⟩ := (hknit.mem_children id _ hslot c).1 hc
    rw [h.linkOf? ht] at hlink
    obtain ⟨m, hm, hhome⟩ := Option.map_eq_some_iff.1 hlink
    obtain ⟨hm, hk⟩ := replyIn?_eq_some.1 hm
    have hparent := (parent_of_home_eq_node hm hk hhome).1
    exact absurd (hloose c m hm ⟨by simp [hk], hparent⟩) hc

/-- The board that is ready for `m`, with the replies that wait for it detached. Also tells whether a
ghost went. -/
def readied (g : Board) (m : Message) : Board × Bool :=
  (g.note m).detachAll ((g.note m).waitingOn m.id)

/-- The board after the arrival of `m`, before the waiting replies are attached again. -/
def filed (g : Board) (m : Message) : Board :=
  (((g.note m).detachAll ((g.note m).waitingOn m.id)).1.place m).1

theorem filed_eq (g : Board) (m : Message) : g.filed m = ((g.readied m).1.place m).1 := rfl

/-- The reply that has to be moved because `m` closes a loop. -/
def movedBy? (g : Board) (m : Message) : Option MessageId :=
  ((g.note m).breaker? m).filter fun b => b ≠ m.id ∧ b ∉ (g.note m).waitingOn m.id

theorem insert_fst (g : Board) (m : Message) : (g.insert m).1 =
    (((g.filed m).attachAll ((g.note m).waitingOn m.id)).1.relocateAll (g.movedBy? m).toList).1 :=
  elim_relocate _ (g.movedBy? m)

theorem regrown_filed (g : Board) (m : Message) : Regrown (g.filed m) (g.insert m).1 := by
  rw [insert_fst]
  exact (regrown_attachAll _ _).trans (regrown_relocateAll _ _)

section Filed

variable (g : Board) (m : Message)

theorem messages_note : (g.note m).messages = g.messages := by rw [note_eq]

theorem threads_note : (g.note m).threads = g.threads := by rw [note_eq]

theorem deletedRoots_note : (g.note m).deletedRoots = g.deletedRoots := by rw [note_eq]

theorem regrown_waiting : Regrown (g.note m) (g.readied m).1 := regrown_detachAll _ _

theorem name_readied : (g.readied m).1.name = g.name :=
  (regrown_waiting g m).name.trans (by rw [note_eq])

theorem messages_readied : (g.readied m).1.messages = g.messages :=
  (regrown_waiting g m).messages.trans (messages_note g m)

theorem replyIn?_readied : (g.readied m).1.replyIn? = g.replyIn? := by
  funext k id
  rw [replyIn?, replyIn?, messages_readied]

theorem deletedRoots_readied : (g.readied m).1.deletedRoots = g.deletedRoots :=
  (regrown_waiting g m).deletedRoots.trans (deletedRoots_note g m)

theorem name_filed : (g.filed m).name = g.name := by
  rw [filed_eq, place_eq]
  exact name_readied g m

theorem messages_filed : (g.filed m).messages = g.messages.insert m.id m := by
  rw [filed_eq, place_eq]
  exact congrArg (·.insert m.id m) (messages_readied g m)

theorem repliesTo_filed : (g.filed m).repliesTo = (g.note m).repliesTo := by
  rw [filed_eq, place_eq]
  exact (regrown_waiting g m).repliesTo

theorem inconsistent_filed : (g.filed m).inconsistent = (g.note m).inconsistent := by
  rw [filed_eq, place_eq]
  exact (regrown_waiting g m).inconsistent

theorem mem_threads_filed : k ∈ (g.filed m).threads ↔ treeKey m = k ∨ k ∈ g.threads := by
  rw [filed_eq, mem_threads_place, (regrown_waiting g m).mem_threads, threads_note]

theorem name_insert : (g.insert m).1.name = g.name :=
  (regrown_filed g m).name.trans (name_filed g m)

theorem messages_insert : (g.insert m).1.messages = g.messages.insert m.id m :=
  (regrown_filed g m).messages.trans (messages_filed g m)

/-- Filing a message as a reply leaves the deleted roots, filing it as a root takes it out of them. -/
theorem mem_deletedRoots_insert : k ∈ (g.insert m).1.deletedRoots ↔
    k ∈ g.deletedRoots ∧ ¬ (m.thread = none ∧ m.id = k) := by
  rw [(regrown_filed g m).deletedRoots, filed_eq, place]
  cases ht : m.thread with
  | none => simp [placeRoot, deletedRoots_readied, and_comm]
  | some t => simp [placeReply, deletedRoots_readied]

end Filed

theorem ingested_of_not_targets (h : m.targets g.name = false) : g.ingested m = g := by
  simp [ingested, ingest, h]

theorem ingested_of_stored {x : Message} (h : g.messages[m.id]? = some x) : g.ingested m = g := by
  have hcontains : g.contains m.id = true := by
    rw [contains, Std.ExtTreeMap.contains_eq_isSome_getElem?, h, Option.isSome_some]
  rw [ingested, ingest]
  cases m.targets g.name <;> simp [hcontains]

theorem ingest_eq_insert (htargets : m.targets g.name = true) (hm : g.messages[m.id]? = none) :
    g.ingest m = .ok (g.insert m) := by
  have hcontains : g.contains m.id = false := by
    rw [contains, Std.ExtTreeMap.contains_eq_isSome_getElem?, hm, Option.isSome_none]
  simp [ingest, htargets, hcontains]

theorem ingested_eq_insert (htargets : m.targets g.name = true) (hm : g.messages[m.id]? = none) :
    g.ingested m = (g.insert m).1 := by
  rw [ingested, ingest_eq_insert htargets hm]

/-- A board refuses no message that targets it. -/
theorem exists_ingest_eq_ok (htargets : m.targets g.name = true) :
    ∃ r, g.ingest m = .ok (g.ingested m, r) := by
  rw [ingested, ingest]
  cases g.contains m.id with
  | true => exact ⟨_, by rw [htargets]; rfl⟩
  | false => exact ⟨_, by rw [htargets]; rfl⟩

theorem name_ingested (g : Board) (m : Message) : (g.ingested m).name = g.name := by
  cases htargets : m.targets g.name with
  | false => rw [ingested_of_not_targets htargets]
  | true =>
    cases hm : g.messages[m.id]? with
    | none => rw [ingested_eq_insert htargets hm, name_insert]
    | some x => rw [ingested_of_stored hm]

/-- What an arrival stores: the message, on a board that it targets and that has none of its id. -/
theorem getElem?_messages_ingested (g : Board) (m : Message) (q : MessageId) :
    (g.ingested m).messages[q]? =
      if m.id = q ∧ m.targets g.name = true ∧ g.messages[q]? = none then some m
      else g.messages[q]? := by
  cases htargets : m.targets g.name with
  | false => simp [ingested_of_not_targets htargets]
  | true =>
    cases hm : g.messages[m.id]? with
    | none =>
      rw [ingested_eq_insert htargets hm, messages_insert, Std.ExtTreeMap.getElem?_insert]
      simp only [Std.LawfulEqOrd.compare_eq_iff_eq]
      grind
    | some y =>
      rw [ingested_of_stored hm]
      grind

/-- A message that targets the board is stored after its arrival, as are all that were before. -/
theorem messages_ingested (htargets : m.targets g.name = true)
    (hm : ∀ x, g.messages[m.id]? = some x → x = m) {q : MessageId} {x : Message} :
    (g.ingested m).messages[q]? = some x ↔ g.messages[q]? = some x ∨ (x = m ∧ q = m.id) := by
  rw [getElem?_messages_ingested]
  cases hnew : g.messages[m.id]? with
  | none => grind
  | some y =>
    have hy := hm y hnew
    grind

theorem of_messages_ingested {q : MessageId} {x : Message}
    (hx : (g.ingested m).messages[q]? = some x) : g.messages[q]? = some x ∨ x = m := by
  rw [getElem?_messages_ingested] at hx
  grind

/-- An arrival leaves all messages that are stored. -/
theorem messages_of_ingested {q : MessageId} {x : Message} (hx : g.messages[q]? = some x) :
    (g.ingested m).messages[q]? = some x := by
  rw [getElem?_messages_ingested, hx]
  simp

theorem mem_messages_ingested (htargets : m.targets g.name = true) {q : MessageId} :
    q ∈ (g.ingested m).messages ↔ q = m.id ∨ q ∈ g.messages := by
  cases hnew : g.messages[m.id]? with
  | none =>
    rw [ingested_eq_insert htargets hnew, messages_insert, Std.ExtTreeMap.mem_insert,
      Std.LawfulEqOrd.compare_eq_iff_eq, @eq_comm _ m.id]
  | some y =>
    rw [ingested_of_stored hnew]
    refine (or_iff_right_of_imp ?_).symm
    rintro rfl
    rw [Std.ExtTreeMap.mem_iff_isSome_getElem?, hnew, Option.isSome_some]

theorem deletedRoots_ingested (hk : k ∈ (g.ingested m).deletedRoots) : k ∈ g.deletedRoots := by
  cases htargets : m.targets g.name with
  | false => rwa [ingested_of_not_targets htargets] at hk
  | true =>
    cases hm : g.messages[m.id]? with
    | none =>
      rw [ingested_eq_insert htargets hm] at hk
      exact ((mem_deletedRoots_insert g m).1 hk).1
    | some x => rwa [ingested_of_stored hm] at hk

namespace Coherent

/-- The replies that wait for an arriving message. -/
theorem mem_waiting (h : g.Coherent) (hparent : m.parent ≠ some m.id) :
    c ∈ (g.note m).waitingOn m.id ↔
      ∃ x : Message, g.messages[c]? = some x ∧ x.RepliesTo m.id := by
  rw [mem_waitingOn, waits_note, h.waits]
  simp [Message.RepliesTo, hparent]

theorem not_mem_waiting (h : g.Coherent) (hm : g.messages[m.id]? = none)
    (hparent : m.parent ≠ some m.id) : m.id ∉ (g.note m).waitingOn m.id := by
  intro hc
  obtain ⟨x, hx, -⟩ := (h.mem_waiting hparent).1 hc
  rw [hm] at hx
  cases hx

theorem planted_note (h : g.Coherent) (m : Message) : (g.note m).Planted g.home ∅ :=
  h.planted.of_eq (messages_note g m) (threads_note g m) (deletedRoots_note g m)

theorem planted_readied (h : g.Coherent) (m : Message) :
    (g.readied m).1.Planted g.home {c | c ∈ (g.note m).waitingOn m.id} := by
  have hwaiting := (h.planted_note m).detachAll ((g.note m).waitingOn m.id)
  rwa [Set.union_empty] at hwaiting

/-- Once the waiting replies are off, the message finds its slot free. -/
theorem slot_readied_eq_none (h : g.Coherent) (hm : g.messages[m.id]? = none)
    (hparent : m.parent ≠ some m.id) (ht : (g.readied m).1.threads[k]? = some t) :
    t.nodes[m.id]? = none := by
  have hmessages := messages_readied g m
  refine (home_congr hmessages ▸ h.planted_readied m).slot_eq_none (by rw [hmessages, hm]) ?_ ht
  intro c x hx hreply
  exact (h.mem_waiting hparent).2 ⟨x, hmessages ▸ hx, hreply⟩

theorem planted_filed (h : g.Coherent) (hm : g.messages[m.id]? = none)
    (hparent : m.parent ≠ some m.id) :
    (g.filed m).Planted (Function.update g.home m.id ((g.filed m).home m.id))
      {c | c ∈ (g.note m).waitingOn m.id} := by
  have hmessages := messages_readied g m
  have hplaced := (h.planted_readied m).place (by rw [hmessages, hm])
    (h.not_mem_waiting hm hparent) fun _ _ => h.slot_readied_eq_none hm hparent
  rwa [placement_congr hmessages, ← home_insert_self (messages_filed g m) hparent] at hplaced

/-- In the end everything hangs where it belongs. -/
theorem planted_insert (h : g.Coherent) (hm : g.messages[m.id]? = none)
    (hparent : m.parent ≠ some m.id) : (g.insert m).1.Planted (g.filed m).home ∅ := by
  have hmessages := messages_filed g m
  have hattached := (h.planted_filed hm hparent).attachAll (nodup_waitingOn _ m.id) fun c hc => hc
  have hmoved := hattached.relocateAll (g.movedBy? m).toList
  rw [settled_congr (regrown_attachAll _ _).messages, ← insert_fst] at hmoved
  refine hmoved.congr fun c x k hx => ⟨?_, by simp⟩
  obtain ⟨hx, hk⟩ := replyIn?_eq_some.1 hx
  by_cases hb : c ∈ (g.movedBy? m).toList
  · rw [settled_of_mem hb]
  rw [settled_of_not_mem hb]
  by_cases hc : c ∈ (g.note m).waitingOn m.id
  · rw [settled_of_mem hc]
  rw [settled_of_not_mem hc]
  by_cases hcm : c = m.id
  · rw [hcm, Function.update_self]
  have hx : g.messages[c]? = some x := by
    simpa [messages_insert, Std.ExtTreeMap.getElem?_insert, Ne.symm hcm] using hx
  rw [Function.update_of_ne hcm]
  refine home_insert hmessages h.keyed hm hx hk ?_ fun hbreaker => hb ?_
  · exact fun hp => hc ((h.mem_waiting hparent).2 ⟨x, hx, by simp [hk], hp⟩)
  · rw [← breaker?_congr (messages_note g m)] at hbreaker
    simp [movedBy?, Option.filter_eq_some_iff, hbreaker, hcm, hc]

theorem insert (h : g.Coherent) (hm : g.messages[m.id]? = none) (htargets : m.targets g.name)
    (hself : m.namesItself = false) : (g.insert m).1.Coherent := by
  have hparent := Message.parent_ne_of_namesItself hself
  have hindexed : (g.filed m).Indexed := h.toIndexed.store hm htargets hself (name_filed g m)
    (messages_filed g m) (repliesTo_filed g m) (inconsistent_filed g m)
  refine ⟨hindexed.of_regrown (regrown_filed g m), ?_, fun k hk => ?_⟩
  · rw [home_congr (regrown_filed g m).messages]
    exact h.planted_insert hm hparent
  · rw [(regrown_filed g m).mem_threads, mem_threads_filed] at hk
    simp only [messages_insert, Std.ExtTreeMap.getElem?_insert, Std.LawfulEqOrd.compare_eq_iff_eq]
    rcases hk with rfl | hk
    · exact ⟨m.id, m, by simp, rfl⟩
    · obtain ⟨c, x, hx, hkey⟩ := h.populated k hk
      have hne : m.id ≠ c := by
        rintro rfl
        rw [hm] at hx
        cases hx
      exact ⟨c, x, by rwa [if_neg hne], hkey⟩

/-- An arriving message keeps a board coherent, whether it is filed or not. -/
theorem ingested (h : g.Coherent) (hself : m.namesItself = false) : (g.ingested m).Coherent := by
  cases htargets : m.targets g.name with
  | false => rwa [ingested_of_not_targets htargets]
  | true =>
    cases hm : g.messages[m.id]? with
    | none =>
      rw [ingested_eq_insert htargets hm]
      exact h.insert hm htargets hself
    | some x => rwa [ingested_of_stored hm]

end Coherent

end Board

end Noticeboard
