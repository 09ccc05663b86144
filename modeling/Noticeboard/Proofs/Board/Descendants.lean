import Noticeboard.Proofs.Board.Merging
import Noticeboard.Proofs.ThreadTree.Preorder

/-!
# Descendants in a run

The trees that a run leaves are knit and without cycles, so that the visit below a slot comes to an
end, after one step for each reply that hangs below it, and lists these replies depth first
(`run_descends`).
-/

namespace Noticeboard

namespace Board

/-- In every tree of a run the visit below a slot ends after as many steps as it lists replies. It
lists those from which following parents leads to the slot, each once and depth first, and a slot's
list is made of its children in ascending order, each followed by its own list. -/
theorem run_descends (name : BoardName) {ops : List Op} (hops : ∀ op ∈ ops, op.Admissible)
    {k : MessageId} {t : ThreadTree} (ht : (run name ops).threads[k]? = some t) (id : MessageId) :
    (∀ steps, t.descend steps (t.childrenOf id) =
        if (t.descendants id).length ≤ steps then some (t.descendants id) else none) ∧
      (∀ l, t.ListsBelow id l ↔ l = t.descendants id) ∧
      (t.childrenOf id).Pairwise t.SiblingLT ∧ (∀ c, c ∈ t.childrenOf id ↔ t.HangsUnder c id) ∧
      t.descendants id = (t.childrenOf id).flatMap fun c => c :: t.descendants c := by
  obtain ⟨h, -⟩ := coherent_run name hops
  have hknit := h.planted.knit k t ht
  have hacyclic := h.acyclic ht
  exact ⟨ThreadTree.descend_eq hknit hacyclic id,
    fun l => ThreadTree.listsBelow_iff hknit hacyclic,
    ThreadTree.pairwise_childrenOf hknit id, fun c => ThreadTree.mem_childrenOf hknit,
    ThreadTree.descendants_eq_flatMap hknit hacyclic id⟩

/-- A reply to the second of the ring. -/
def Ring.fifth : Message := .newReply (messageId 5) root.id second.id "" 3 {board}

/-- The first of the ring cuts the loop. Below it hang the second, with a reply of its own, and then
the third, although the reply to the second has the larger id. -/
theorem ring_descends :
    let ops := Ring.ops ++ [.ingest Ring.third, .ingest Ring.fifth]
    (∀ op ∈ ops, op.Admissible) ∧
      ∃ t, (run Ring.board ops).threads[Ring.root.id]? = some t ∧
        t.descendants Ring.first.id = [Ring.second.id, Ring.fifth.id, Ring.third.id] ∧
        t.descend 2 (t.childrenOf Ring.first.id) = none ∧
        t.descend 3 (t.childrenOf Ring.first.id) =
          some [Ring.second.id, Ring.fifth.id, Ring.third.id] ∧
        t.ListsBelow Ring.first.id [Ring.second.id, Ring.fifth.id, Ring.third.id] := by
  intro ops
  have hops : ∀ op ∈ ops, op.Admissible := by decide
  have hvisit : ((run Ring.board ops).threads[Ring.root.id]?.map (·.descendants Ring.first.id)) =
      some [Ring.second.id, Ring.fifth.id, Ring.third.id] := by decide +kernel
  obtain ⟨t, ht, hlist⟩ := Option.map_eq_some_iff.1 hvisit
  obtain ⟨hsteps, hlists, -⟩ := run_descends Ring.board hops ht Ring.first.id
  rw [hlist] at hsteps hlists
  exact ⟨hops, t, ht, hlist, hsteps 2, hsteps 3, (hlists _).2 rfl⟩

end Board

end Noticeboard
