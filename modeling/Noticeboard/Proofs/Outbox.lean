import Noticeboard.Outbox
import Noticeboard.Proofs.Collections
import Noticeboard.Proofs.Sorting

/-!
# The entry of an own message

An outbox keeps each message under its id (`Outbox.Keyed`). To queue a message again leaves its entry,
and what is recorded of an attempt to publish bears on a queued entry alone. The messages to publish
are the queued ones, in a strict order (`Outbox.mem_pending`, `Outbox.pairwise_pending`).
-/

namespace Noticeboard

theorem OutboxEntry.isPublished_eq_false {entry : OutboxEntry} :
    entry.isPublished = false ↔ entry.state = .queued := by
  rw [isPublished]
  cases entry.state <;> simp

namespace Outbox

variable {o : Outbox} {x id : MessageId} {m : Message} {now : Timestamp} {entry : OutboxEntry}

/-! ## Single entries -/

theorem getElem?_queue : (o.queue m now)[x]? =
    if m.id = x ∧ m.id ∉ o then
      some { message := m, queuedAt := now, state := .queued, attempts := 0, lastError := none }
    else o[x]? := by
  rw [queue, Std.ExtTreeMap.getElem?_insertIfNew]
  simp only [Std.LawfulEqOrd.compare_eq_iff_eq]

theorem isQueued_iff : o.isQueued id = true ↔ ∃ entry, o[id]? = some entry ∧ entry.state = .queued := by
  rw [isQueued, Option.any_eq_true]
  simp only [Bool.not_eq_true', OutboxEntry.isPublished_eq_false]

theorem getElem?_modify_queued (o : Outbox) (id x : MessageId) (f : OutboxEntry → OutboxEntry) :
    (if o.isQueued id then o.modify id f else o)[x]? =
      o[x]?.map fun e => if id = x ∧ e.state = .queued then f e else e := by
  cases hqueued : o.isQueued id with
  | true =>
    obtain ⟨entry, hentry, hstate⟩ := isQueued_iff.1 hqueued
    rw [if_pos rfl, Std.ExtTreeMap.getElem?_modify]
    simp only [Std.LawfulEqOrd.compare_eq_iff_eq]
    split
    · next hid =>
      subst hid
      simp [hentry, hstate]
    · next hid => simp [hid]
  | false =>
    rw [if_neg Bool.false_ne_true]
    cases hentry : o[x]? with
    | none => rfl
    | some e =>
      have hother : ¬(id = x ∧ e.state = .queued) := by
        rintro ⟨rfl, hstate⟩
        rw [isQueued_iff.2 ⟨e, hentry, hstate⟩] at hqueued
        cases hqueued
      rw [Option.map_some, if_neg hother]

theorem getElem?_markPublished (location : String) : (o.markPublished id location now).1[x]? =
    o[x]?.map fun e => if id = x ∧ e.state = .queued then
      { e with state := .published location now, attempts := e.attempts + 1, lastError := none }
    else e := by
  rw [markPublished, apply_ite Prod.fst]
  exact getElem?_modify_queued o id x _

theorem getElem?_markFailed (error : String) : (o.markFailed id error).1[x]? =
    o[x]?.map fun e => if id = x ∧ e.state = .queued then
      { e with attempts := e.attempts + 1, lastError := some error }
    else e := by
  rw [markFailed, apply_ite Prod.fst]
  exact getElem?_modify_queued o id x _

theorem mem_markPublished (location : String) (now : Timestamp) :
    x ∈ (o.markPublished id location now).1 ↔ x ∈ o := by
  rw [markPublished]
  split
  · exact Std.ExtTreeMap.mem_modify
  · rfl

theorem mem_markFailed (error : String) : x ∈ (o.markFailed id error).1 ↔ x ∈ o := by
  rw [markFailed]
  split
  · exact Std.ExtTreeMap.mem_modify
  · rfl

theorem getElem?_removeAuthor {author : IdentityId} : (o.removeAuthor author)[x]? =
    if x.author = author then none else o[x]? := by
  rw [removeAuthor, getElem?_filter_key o fun k => k.author != author]
  simp

/-! ## Messages to publish -/

/-- Every message is kept under its id. -/
def Keyed (o : Outbox) : Prop :=
  ∀ (id : MessageId) (entry : OutboxEntry), o[id]? = some entry → entry.message.id = id

/-- The order in which to publish: a message was queued earlier, or at the same time and has the lower
id. -/
def Before (o : Outbox) (a b : Message) : Prop :=
  ∃ x y, o[a.id]? = some x ∧ o[b.id]? = some y ∧
    (x.queuedAt < y.queuedAt ∨ (x.queuedAt = y.queuedAt ∧ compare a.id b.id = .lt))

theorem mem_queuedEntries : entry ∈ (o.toList.map (·.2)).filter (!·.isPublished) ↔
    ∃ id : MessageId, o[id]? = some entry ∧ entry.state = .queued := by
  simp [OutboxEntry.isPublished_eq_false, Std.ExtTreeMap.mem_toList_iff_getElem?_eq_some]

theorem mem_pending (h : o.Keyed) : m ∈ o.pending ↔
    ∃ entry, o[m.id]? = some entry ∧ entry.message = m ∧ entry.state = .queued := by
  simp only [pending, List.mem_map, List.mem_mergeSort, mem_queuedEntries]
  constructor
  · rintro ⟨entry, ⟨id, hentry, hqueued⟩, rfl⟩
    exact ⟨entry, (h id entry hentry).symm ▸ hentry, rfl, hqueued⟩
  · rintro ⟨entry, hentry, hmessage, hqueued⟩
    exact ⟨entry, ⟨m.id, hentry, hqueued⟩, hmessage⟩

theorem pairwise_pending (h : o.Keyed) : o.pending.Pairwise o.Before := by
  have hids : (o.toList.map (·.2)).map (·.message.id) = o.keys := by
    rw [← Std.ExtTreeMap.map_fst_toList_eq_keys, List.map_map]
    refine List.map_congr_left fun e he => ?_
    exact h e.1 e.2 (Std.ExtTreeMap.mem_toList_iff_getElem?_eq_some.1 he)
  have hnodup : (((o.toList.map (·.2)).filter (!·.isPublished)).map (·.message.id)).Nodup := by
    refine ((List.filter_sublist).map _).nodup ?_
    rw [hids]
    exact nodup_keys o
  rw [pending, List.pairwise_map]
  refine (pairwise_mergeSort_keys hnodup).imp_of_mem fun {x y} hx hy hlt => ?_
  have hkept {e : OutboxEntry}
      (he : e ∈ ((o.toList.map (·.2)).filter (!·.isPublished)).mergeSort OutboxEntry.queuedBefore) :
      o[e.message.id]? = some e := by
    obtain ⟨id, hid, -⟩ := mem_queuedEntries.1 (List.mem_mergeSort.1 he)
    exact (h id e hid).symm ▸ hid
  exact ⟨x, y, hkept hx, hkept hy, hlt.imp_left Std.compare_eq_lt.1⟩

end Outbox

end Noticeboard
