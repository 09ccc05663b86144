import Noticeboard.Proofs.Board.Run

/-!
# Deleted roots

After a removal a root counts as deleted if it did so before or was taken away itself, provided that
a reply of its thread is left (`Coherent.mem_deletedRoots_removed`,
`Coherent.mem_deletedRoots_removeAuthor`).

So the removals of two authors commute (`Coherent.removeAuthor_comm`): a coherent board is determined
by its messages and its deleted roots, and what a root was in between does not show. A root that still
stands between the two removals is deleted by the second one, and a thread that is empty in between is
empty in the end. For the same reason two arrivals commute (`Coherent.ingested_comm`), and a removal
that leaves no deleted root takes back an arrival (`Coherent.removed_ingested`).
-/

namespace Noticeboard

namespace Board

variable {g g' : Board} {m x : Message} {id k : MessageId}

/-- A reply of the thread `k` is stored. -/
def Answered (g : Board) (k : MessageId) : Prop := ∃ id m, g.replyIn? k id = some m

theorem Answered.of_messages (h : g'.Answered k)
    (hmessages : ∀ (q : MessageId) (x : Message), g'.messages[q]? = some x →
      g.messages[q]? = some x) : g.Answered k := by
  obtain ⟨id, m, hm⟩ := h
  obtain ⟨hm, hk⟩ := replyIn?_eq_some.1 hm
  exact ⟨id, m, replyIn?_eq_some.2 ⟨hmessages id m hm, hk⟩⟩

theorem answered_congr (h : g'.messages = g.messages) : g'.Answered k ↔ g.Answered k := by
  simp only [Answered, replyIn?, h]

theorem Answered.of_erase (h : g'.Answered k) (hmessages : g'.messages = g.messages.erase id) :
    g.Answered k := by
  refine h.of_messages fun q x hx => ?_
  rw [hmessages, Std.ExtTreeMap.getElem?_erase] at hx
  split at hx
  · cases hx
  · exact hx

namespace Coherent

theorem isEmpty_eq_false_iff (h : g.Coherent) {t : ThreadTree} (ht : g.threads[k]? = some t) :
    t.isEmpty = false ↔ g.Answered k := by
  rw [← Bool.not_eq_true, h.planted.isEmpty_iff ht, Classical.not_forall]
  simp only [Option.ne_none_iff_exists', Answered]

theorem mem_threads_of_answered (h : g.Coherent) (hk : g.Answered k) : k ∈ g.threads := by
  obtain ⟨id, m, hm⟩ := hk
  obtain ⟨hm, hthread⟩ := replyIn?_eq_some.1 hm
  exact h.mem_threads.2 ⟨id, m, hm, by rw [hthread, Option.getD_some]⟩

/-! ## One arrival -/

/-- A deleted root stays deleted until it arrives again. -/
theorem mem_deletedRoots_ingested (h : g.Coherent) (hself : m.namesItself = false) :
    k ∈ (g.ingested m).deletedRoots ↔ k ∈ g.deletedRoots ∧ ¬ (g.ingested m).Starts k := by
  have hrootless {g : Board} (h : g.Coherent) (hk : k ∈ g.deletedRoots) : ¬ g.Starts k :=
    (h.rootless_of_mem hk).1
  refine ⟨fun hk => ⟨deletedRoots_ingested hk, hrootless (h.ingested hself) hk⟩, ?_⟩
  rintro ⟨hk, hstarts⟩
  cases htargets : m.targets g.name with
  | false => rwa [ingested_of_not_targets htargets]
  | true =>
    cases hm : g.messages[m.id]? with
    | some x => rwa [ingested_of_stored hm]
    | none =>
      rw [ingested_eq_insert htargets hm] at hstarts ⊢
      refine (mem_deletedRoots_insert g m).2 ⟨hk, fun ⟨hthread, hid⟩ => hstarts ?_⟩
      rw [starts_insert (messages_insert g m), if_pos hid]
      exact hthread

/-! ## One removal -/

/-- Clearing the place of a root deletes it if it has replies and `tombstone` asks for it. -/
theorem mem_deletedRoots_cleared (h : g.Coherent) (hm : g.messages[m.id]? = some m)
    (tombstone : Bool) : k ∈ (g.cleared m tombstone).deletedRoots ↔
      k ∈ g.deletedRoots ∨
        (tombstone = true ∧ k = m.id ∧ m.thread = none ∧ g.Answered k) := by
  have htaken := (regrown_taken g m).deletedRoots
  rw [cleared, unnote_eq, clearPlace]
  cases hthread : m.thread with
  | some q =>
    simp only [clearReply, reduceCtorEq, false_and, and_false, or_false]
    split
    · rw [htaken]
    · split <;> rw [htaken]
  | none =>
    obtain ⟨t, ht⟩ := h.planted.tree_of m.id m hm
    rw [hthread, Option.getD_none] at ht
    have hempty := h.isEmpty_eq_false_iff ht
    simp only [hthread, clearRoot, Message.isThread, Option.isNone_none, if_true, ht,
      Bool.and_eq_true, Bool.not_eq_true', true_and]
    split
    · next hne =>
      rw [Std.ExtTreeSet.mem_insert, Std.LawfulEqOrd.compare_eq_iff_eq]
      constructor
      · rintro (rfl | hk)
        · exact .inr ⟨hne.1, rfl, hempty.1 hne.2⟩
        · exact .inl hk
      · rintro (hk | ⟨-, rfl, -⟩)
        · exact .inr hk
        · exact .inl rfl
    · next he =>
      refine (or_iff_left ?_).symm
      rintro ⟨htombstone, rfl, hans⟩
      exact he ⟨htombstone, hempty.2 hans⟩

theorem mem_deletedRoots_removeStored (h : g.Coherent) (hm : g.messages[m.id]? = some m)
    (tombstone : Bool) : k ∈ (g.removeStored m tombstone).1.deletedRoots ↔
      (k ∈ g.deletedRoots ∨ (tombstone = true ∧ k = m.id ∧ g.Starts k)) ∧
        (g.removeStored m tombstone).1.Answered k := by
  have hafter := h.removeStored hm tombstone
  have hcleared : (g.rehung m tombstone).deletedRoots = (g.cleared m tombstone).deletedRoots :=
    (regrown_cleared g m tombstone).deletedRoots
  have hstarts : g.Starts m.id ↔ m.thread = none := by
    rw [Starts, hm]
    simp only [Option.some.injEq, exists_eq_left']
  constructor
  · intro hk
    refine ⟨?_, (hafter.rootless_of_mem hk).2⟩
    have hrehung : k ∈ (g.rehung m tombstone).deletedRoots := by
      rw [removeStored_fst] at hk
      split at hk
      · exact Std.ExtTreeSet.mem_of_mem_erase hk
      · exact hk
    rw [hcleared, h.mem_deletedRoots_cleared hm] at hrehung
    refine hrehung.imp_right ?_
    rintro ⟨htombstone, rfl, hthread, -⟩
    exact ⟨htombstone, rfl, hstarts.2 hthread⟩
  · rintro ⟨hk, hans⟩
    have hrehung : k ∈ (g.rehung m tombstone).deletedRoots := by
      rw [hcleared, h.mem_deletedRoots_cleared hm]
      refine hk.imp_right ?_
      rintro ⟨htombstone, rfl, hk⟩
      exact ⟨htombstone, rfl, hstarts.1 hk, hans.of_erase (messages_removeStored g m tombstone)⟩
    -- A tree that is dropped has no reply left, so it is not the tree of `k`.
    have hthreads := hafter.mem_threads_of_answered hans
    rw [removeStored_fst] at hthreads ⊢
    split
    · next habandoned =>
      rw [if_pos habandoned] at hthreads
      exact Std.ExtTreeSet.mem_erase.2 ⟨(Std.ExtTreeMap.mem_erase.1 hthreads).1, hrehung⟩
    · exact hrehung

/-- The deleted roots after one removal. -/
theorem mem_deletedRoots_removed (h : g.Coherent) (id : MessageId) (tombstone : Bool) :
    k ∈ (g.removed id tombstone).deletedRoots ↔
      (k ∈ g.deletedRoots ∨ (tombstone = true ∧ k = id ∧ g.Starts k)) ∧
        (g.removed id tombstone).Answered k := by
  cases hm : g.messages[id]? with
  | some m =>
    obtain rfl := h.keyed id m hm
    rw [removed_of_some hm, h.mem_deletedRoots_removeStored hm]
  | none =>
    rw [removed_of_none hm]
    constructor
    · exact fun hk => ⟨.inl hk, (h.rootless_of_mem hk).2⟩
    · rintro ⟨hk | ⟨-, rfl, m, hm', -⟩, -⟩
      · exact hk
      · rw [hm] at hm'
        cases hm'

/-! ## Several removals -/

end Coherent

/-- The board after the removal of those of some messages that are stored. -/
def removedAll (g : Board) (ids : List MessageId) : Board :=
  ids.foldl (fun g id => g.removed id true) g

namespace Coherent

theorem answered_of_removedAll (h : g.Coherent) {ids : List MessageId}
    (hk : (g.removedAll ids).Answered k) : g.Answered k := by
  refine hk.of_messages fun q x hx => ?_
  rw [removedAll, (h.foldl_removed ids).2.2.1] at hx
  split at hx
  · cases hx
  · exact hx

theorem mem_deletedRoots_removedAll (h : g.Coherent) (ids : List MessageId) :
    k ∈ (g.removedAll ids).deletedRoots ↔
      (k ∈ g.deletedRoots ∨ (k ∈ ids ∧ g.Starts k)) ∧ (g.removedAll ids).Answered k := by
  induction ids generalizing g with
  | nil =>
    constructor
    · exact fun hk => ⟨.inl hk, (h.rootless_of_mem hk).2⟩
    · rintro ⟨hk | ⟨hk, -⟩, -⟩
      · exact hk
      · cases hk
  | cons id ids ih =>
    have hfirst := h.removed id true
    have hstarts : (g.removed id true).Starts k ↔ id ≠ k ∧ g.Starts k :=
      starts_erase (messages_removed h.keyed id true) k
    have hcons : g.removedAll (id :: ids) = (g.removed id true).removedAll ids := rfl
    rw [hcons, ih hfirst, h.mem_deletedRoots_removed, hstarts, List.mem_cons]
    refine and_congr_left fun hk => ?_
    have hbetween := hfirst.answered_of_removedAll hk
    grind

/-- The deleted roots after the removal of an author. -/
theorem mem_deletedRoots_removeAuthor (h : g.Coherent) (author : IdentityId) :
    k ∈ (g.removeAuthor author).1.deletedRoots ↔
      (k ∈ g.deletedRoots ∨ (k.author = author ∧ g.Starts k)) ∧
        (g.removeAuthor author).1.Answered k := by
  have hfst : (g.removeAuthor author).1 = g.removedAll (g.authored author) :=
    removeAll_fst g (g.authored author)
  rw [hfst, h.mem_deletedRoots_removedAll, mem_authored]
  refine and_congr_left fun _ => or_congr_right (and_congr_left ?_)
  rintro ⟨m, hm, -⟩
  exact and_iff_right (mem_iff_getElem?.2 ⟨m, hm⟩)

/-! ## Two authors -/

theorem starts_removeAuthor (h : g.Coherent) (author : IdentityId) :
    (g.removeAuthor author).1.Starts k ↔ k.author ≠ author ∧ g.Starts k := by
  simp only [Starts, (h.removeAuthor author).2.2.1]
  split <;> simp [*]

theorem answered_of_removeAuthor (h : g.Coherent) {author : IdentityId}
    (hk : (g.removeAuthor author).1.Answered k) : g.Answered k := by
  refine hk.of_messages fun q x hx => ?_
  rw [(h.removeAuthor author).2.2.1] at hx
  split at hx
  · cases hx
  · exact hx

theorem messages_removeAuthor_twice (h : g.Coherent) (a b : IdentityId) (q : MessageId) :
    ((g.removeAuthor a).1.removeAuthor b).1.messages[q]? =
      if q.author = a ∨ q.author = b then none else g.messages[q]? := by
  have ha := h.removeAuthor a
  rw [(ha.1.removeAuthor b).2.2.1, ha.2.2.1]
  by_cases hqa : q.author = a <;> by_cases hqb : q.author = b <;> simp [hqa, hqb]

theorem mem_deletedRoots_removeAuthor_twice (h : g.Coherent) (a b : IdentityId) :
    k ∈ ((g.removeAuthor a).1.removeAuthor b).1.deletedRoots ↔
      (k ∈ g.deletedRoots ∨ ((k.author = a ∨ k.author = b) ∧ g.Starts k)) ∧
        ((g.removeAuthor a).1.removeAuthor b).1.Answered k := by
  have ha := (h.removeAuthor a).1
  rw [ha.mem_deletedRoots_removeAuthor, h.mem_deletedRoots_removeAuthor, h.starts_removeAuthor]
  refine and_congr_left fun hk => ?_
  have hfirst := ha.answered_of_removeAuthor hk
  grind

/-- The order in which two authors are taken away does not matter. -/
theorem removeAuthor_comm (h : g.Coherent) (a b : IdentityId) :
    ((g.removeAuthor a).1.removeAuthor b).1 = ((g.removeAuthor b).1.removeAuthor a).1 := by
  have ha := h.removeAuthor a
  have hb := h.removeAuthor b
  have hab := ha.1.removeAuthor b
  have hba := hb.1.removeAuthor a
  have hmessages : ((g.removeAuthor a).1.removeAuthor b).1.messages =
      ((g.removeAuthor b).1.removeAuthor a).1.messages := by
    refine Std.ExtTreeMap.ext_getElem? fun q => ?_
    rw [h.messages_removeAuthor_twice, h.messages_removeAuthor_twice]
    exact if_congr or_comm rfl rfl
  refine hab.1.ext hba.1 ?_ hmessages (Std.ExtTreeSet.ext_mem fun k => ?_)
  · rw [hab.2.1, ha.2.1, hba.2.1, hb.2.1]
  · rw [h.mem_deletedRoots_removeAuthor_twice, h.mem_deletedRoots_removeAuthor_twice,
      answered_congr hmessages, @or_comm (k.author = a)]

/-! ## Two arrivals -/

theorem mem_deletedRoots_ingested_twice (h : g.Coherent) (hm : m.namesItself = false)
    (hx : x.namesItself = false) : k ∈ ((g.ingested m).ingested x).deletedRoots ↔
      k ∈ g.deletedRoots ∧ ¬ ((g.ingested m).ingested x).Starts k := by
  rw [(h.ingested hm).mem_deletedRoots_ingested hx, h.mem_deletedRoots_ingested hm, and_assoc]
  refine and_congr_right fun _ => and_iff_right_of_imp fun hstarts hk => hstarts ?_
  obtain ⟨r, hr, hthread⟩ := hk
  exact ⟨r, messages_of_ingested hr, hthread⟩

/-- The order in which two messages arrive does not matter, unless they have the same id. -/
theorem ingested_comm (h : g.Coherent) (hm : m.namesItself = false) (hx : x.namesItself = false)
    (hne : x.id ≠ m.id) : (g.ingested m).ingested x = (g.ingested x).ingested m := by
  have hmessages : ((g.ingested m).ingested x).messages = ((g.ingested x).ingested m).messages := by
    refine Std.ExtTreeMap.ext_getElem? fun q => ?_
    simp only [getElem?_messages_ingested, name_ingested]
    grind
  refine ((h.ingested hm).ingested hx).ext ((h.ingested hx).ingested hm) ?_ hmessages
    (Std.ExtTreeSet.ext_mem fun k => ?_)
  · simp only [name_ingested]
  · rw [h.mem_deletedRoots_ingested_twice hm hx, h.mem_deletedRoots_ingested_twice hx hm, Starts,
      Starts, hmessages]

/-! ## An arrival taken back -/

/-- To remove a message without a trace takes back its arrival, if the board did not know its id. -/
theorem removed_ingested (h : g.Coherent) (hself : m.namesItself = false) (hm : m.id ∉ g.messages)
    (hroot : m.id ∉ g.deletedRoots) : (g.ingested m).removed m.id false = g := by
  have hafter := h.ingested hself
  have hnone : g.messages[m.id]? = none := Std.ExtTreeMap.getElem?_eq_none hm
  have hmessages : ((g.ingested m).removed m.id false).messages = g.messages := by
    rw [messages_removed hafter.keyed]
    refine Std.ExtTreeMap.ext_getElem? fun q => ?_
    simp only [Std.ExtTreeMap.getElem?_erase, Std.LawfulEqOrd.compare_eq_iff_eq,
      getElem?_messages_ingested]
    grind
  refine (hafter.removed m.id false).ext h ?_ hmessages (Std.ExtTreeSet.ext_mem fun k => ?_)
  · rw [name_removed, name_ingested]
  · rw [hafter.mem_deletedRoots_removed, answered_congr hmessages, h.mem_deletedRoots_ingested hself]
    simp only [Bool.false_eq_true, false_and, or_false]
    constructor
    · exact fun hk => hk.1.1
    · intro hk
      obtain ⟨hstarts, hanswered⟩ := h.rootless_of_mem hk
      refine ⟨⟨hk, ?_⟩, hanswered⟩
      rintro ⟨r, hr, hthread⟩
      rw [getElem?_messages_ingested] at hr
      split at hr
      · next hid => exact hroot (hid.1 ▸ hk)
      · exact hstarts ⟨r, hr, hthread⟩

end Coherent

end Board

end Noticeboard
