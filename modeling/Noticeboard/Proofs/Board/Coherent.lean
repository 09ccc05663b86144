import Noticeboard.Board.Arrival
import Noticeboard.Board.Departure
import Noticeboard.Proofs.Board.Planted

/-!
# Coherent boards

Between two operations a board is `Coherent`: its index of replies and its inconsistent messages are
those that the stored messages call for (`Indexed`), every stored reply hangs where it belongs, and
there is no tree without a message.

A coherent board is determined by its name, its messages and its deleted roots (`Coherent.ext`).
-/

namespace Noticeboard

/-- The message is a reply that names `p` as its parent. -/
def Message.RepliesTo (m : Message) (p : MessageId) : Prop := m.thread.isSome ∧ m.parent = some p

namespace Board

variable {g g' : Board} {m : Message} {id c p k : MessageId}

/-! ## The index of replies -/

/-- Whether a reply is entered under a parent. -/
def Waits (g : Board) (p c : MessageId) : Prop := ∃ ids, g.repliesTo[p]? = some ids ∧ c ∈ ids

theorem mem_waitingOn : c ∈ g.waitingOn p ↔ g.Waits p c := by
  rw [waitingOn, Waits]
  cases g.repliesTo[p]? <;> simp

theorem nodup_waitingOn (g : Board) (p : MessageId) : (g.waitingOn p).Nodup := by
  rw [waitingOn]
  split
  · next ids _ => exact nodup_toList ids
  · exact List.nodup_nil

theorem waits_note : (g.note m).Waits p c ↔ g.Waits p c ∨ (c = m.id ∧ m.RepliesTo p) := by
  rw [note, Message.RepliesTo]
  cases ht : m.thread with
  | none => cases hp : m.parent <;> simp [Waits]
  | some t =>
    cases hp : m.parent with
    | none => simp
    | some q =>
      simp only [Waits, Std.ExtTreeMap.getElem?_alter, Std.LawfulEqOrd.compare_eq_iff_eq]
      by_cases hq : q = p
      · subst hq
        cases hids : g.repliesTo[q]? with
        | none => simp [@eq_comm _ m.id c]
        | some ids => simp [@eq_comm _ m.id c, or_comm]
      · simp [hq]

theorem waits_unnote : (g.unnote m).Waits p c ↔ g.Waits p c ∧ ¬ (c = m.id ∧ m.RepliesTo p) := by
  rw [unnote, Message.RepliesTo]
  cases ht : m.thread with
  | none => simp
  | some t =>
    cases hp : m.parent with
    | none => simp
    | some q =>
      simp only [Waits, Std.ExtTreeMap.getElem?_alter, Std.LawfulEqOrd.compare_eq_iff_eq]
      by_cases hq : q = p
      · subst hq
        cases hids : g.repliesTo[q]? with
        | none => simp
        | some ids =>
          simp only [if_true, Option.bind_some]
          split
          · next he =>
            have hgone : c ∉ ids.erase m.id := by simp [Std.ExtTreeSet.isEmpty_iff.1 he]
            grind
          · grind
      · simp [hq]

theorem mem_inconsistent_note :
    c ∈ (g.note m).inconsistent ↔ c ∈ g.inconsistent ∨ (c = m.id ∧ m.isInconsistent) := by
  rw [note, Message.isInconsistent]
  cases ht : m.thread <;> cases hp : m.parent <;> simp [@eq_comm _ m.id c, or_comm]

/-- No entry of the index is empty. -/
def NoneIdle (g : Board) : Prop :=
  ∀ (p : MessageId) (ids : IdSet), g.repliesTo[p]? = some ids → ∃ c, c ∈ ids

theorem NoneIdle.note (h : g.NoneIdle) (m : Message) : (g.note m).NoneIdle := by
  intro p ids hids
  rw [Board.note] at hids
  cases ht : m.thread with
  | none => exact h p ids (by cases hp : m.parent <;> simpa [ht, hp] using hids)
  | some t =>
    cases hp : m.parent with
    | none => exact h p ids (by simpa [ht, hp] using hids)
    | some q =>
      simp only [ht, hp, Std.ExtTreeMap.getElem?_alter] at hids
      split at hids
      · cases hids
        exact ⟨m.id, Std.ExtTreeSet.mem_insert_self⟩
      · exact h p ids hids

theorem NoneIdle.unnote (h : g.NoneIdle) (m : Message) : (g.unnote m).NoneIdle := by
  intro p ids hids
  rw [Board.unnote] at hids
  cases ht : m.thread with
  | none => exact h p ids (by simpa [ht] using hids)
  | some t =>
    cases hp : m.parent with
    | none => exact h p ids (by simpa [ht, hp] using hids)
    | some q =>
      simp only [ht, hp, Std.ExtTreeMap.getElem?_alter] at hids
      split at hids
      · obtain ⟨old, -, hold⟩ := Option.bind_eq_some_iff.1 hids
        split at hold
        · cases hold
        · next hne =>
          cases hold
          exact exists_mem_of_not_isEmpty hne
      · exact h p ids hids

/-- The index is determined by its entries. -/
theorem repliesTo_ext (h : g.NoneIdle) (h' : g'.NoneIdle) (heq : ∀ p c, g.Waits p c ↔ g'.Waits p c) :
    g.repliesTo = g'.repliesTo :=
  ext_mem_entries h h' heq

/-! ## What the stored messages call for -/

/-- Messages and index of a board fit together. -/
structure Indexed (g : Board) : Prop where
  keyed : Keyed g.messages
  targets : ∀ (id : MessageId) (m : Message), g.messages[id]? = some m → m.targets g.name = true
  no_self : ∀ (id : MessageId) (m : Message), g.messages[id]? = some m → m.namesItself = false
  waits : ∀ p c, g.Waits p c ↔ ∃ m : Message, g.messages[c]? = some m ∧ m.RepliesTo p
  noneIdle : g.NoneIdle
  inconsistent : ∀ c, c ∈ g.inconsistent ↔ ∃ m : Message, g.messages[c]? = some m ∧ m.isInconsistent = true

/-- Messages, index and trees of a board fit together. -/
structure Coherent (g : Board) : Prop extends Indexed g where
  planted : g.Planted g.home ∅
  populated : ∀ k ∈ g.threads, ∃ (id : MessageId) (m : Message), g.messages[id]? = some m ∧ m.thread.getD id = k

theorem Indexed.of_regrown (h : g.Indexed) (hg : Regrown g g') : g'.Indexed := by
  rw [hg.eq]
  exact ⟨h.keyed, h.targets, h.no_self, h.waits, h.noneIdle, h.inconsistent⟩

theorem coherent_empty (name : BoardName) : (empty name).Coherent := by
  have hmessages (id : MessageId) : (empty name).messages[id]? = none := by simp [empty]
  have hthreads (id : MessageId) : (empty name).threads[id]? = none := by simp [empty]
  have hreplies (p : MessageId) : (empty name).repliesTo[p]? = none := by simp [empty]
  refine ⟨⟨?_, ?_, ?_, ?_, ?_, ?_⟩, ⟨?_, ?_, ?_, ?_, ?_, ?_⟩, ?_⟩
  all_goals simp [Keyed, Waits, NoneIdle, hmessages, hthreads, hreplies]
  all_goals simp [empty]

/-! ## What determines a board -/

namespace Coherent

/-- There is a tree for each thread of a stored message, and no other. -/
theorem mem_threads (h : g.Coherent) :
    k ∈ g.threads ↔ ∃ (id : MessageId) (m : Message), g.messages[id]? = some m ∧ m.thread.getD id = k := by
  refine ⟨h.populated k, ?_⟩
  rintro ⟨id, m, hm, rfl⟩
  obtain ⟨t, ht⟩ := h.planted.tree_of id m hm
  simp [Std.ExtTreeMap.mem_iff_isSome_getElem?, ht]

theorem root_eq {t t' : ThreadTree} (h : g.Coherent) (h' : g'.Coherent)
    (hmessages : g.messages = g'.messages) (hroots : g.deletedRoots = g'.deletedRoots)
    (ht : g.threads[k]? = some t) (ht' : g'.threads[k]? = some t') : t.root = t'.root := by
  have hstored : t.root = .stored ↔ t'.root = .stored := by
    rw [h.planted.stored k t ht, h'.planted.stored k t' ht', Starts, Starts, hmessages]
  have hdeleted : t.root = .deleted ↔ t'.root = .deleted := by
    have hk := h.planted.deleted k
    have hk' := h'.planted.deleted k
    rw [hroots] at hk
    grind
  cases hr : t.root <;> cases hr' : t'.root <;> simp_all

theorem bare?_eq {t t' : ThreadTree} (h : g.Coherent) (h' : g'.Coherent)
    (hmessages : g.messages = g'.messages) (ht : g.threads[k]? = some t)
    (ht' : g'.threads[k]? = some t') : t.bare? = t'.bare? := by
  funext id
  rw [h.planted.bare k t ht, h'.planted.bare k t' ht', home_congr hmessages, replyIn?, replyIn?,
    hmessages]

theorem threads_eq (h : g.Coherent) (h' : g'.Coherent) (hmessages : g.messages = g'.messages)
    (hroots : g.deletedRoots = g'.deletedRoots) : g.threads = g'.threads := by
  have hsub {a b : Board} (ha : a.Coherent) (hb : b.Coherent) (hm : a.messages = b.messages)
      (hr : a.deletedRoots = b.deletedRoots) {k : MessageId} {t : ThreadTree}
      (ht : a.threads[k]? = some t) : b.threads[k]? = some t := by
    have hk : k ∈ b.threads := by
      rw [hb.mem_threads, ← hm, ← ha.mem_threads]
      simp [Std.ExtTreeMap.mem_iff_isSome_getElem?, ht]
    obtain ⟨t', ht'⟩ := Option.isSome_iff_exists.1 (Std.ExtTreeMap.mem_iff_isSome_getElem?.1 hk)
    have hid : t.id = t'.id := (ha.planted.tree_id k t ht).trans (hb.planted.tree_id k t' ht').symm
    rw [ht', (ha.planted.knit k t ht).ext (hb.planted.knit k t' ht') hid
      (ha.root_eq hb hm hr ht ht') (ha.bare?_eq hb hm ht ht')]
  refine Std.ExtTreeMap.ext_getElem? fun k => Option.ext fun t => ?_
  exact ⟨hsub h h' hmessages hroots, hsub h' h hmessages.symm hroots.symm⟩

/-- A coherent board is determined by its messages and its deleted roots. -/
theorem ext (h : g.Coherent) (h' : g'.Coherent) (hname : g.name = g'.name)
    (hmessages : g.messages = g'.messages) (hroots : g.deletedRoots = g'.deletedRoots) : g = g' := by
  have hthreads := h.threads_eq h' hmessages hroots
  have hreplies : g.repliesTo = g'.repliesTo := by
    refine repliesTo_ext h.noneIdle h'.noneIdle fun p c => ?_
    rw [h.waits, h'.waits, hmessages]
  have hinconsistent : g.inconsistent = g'.inconsistent := by
    refine Std.ExtTreeSet.ext_mem fun c => ?_
    rw [h.inconsistent, h'.inconsistent, hmessages]
  cases g
  cases g'
  simp_all

end Coherent

end Board

end Noticeboard
