import Mathlib.Data.Fintype.EquivFin
import Mathlib.Data.Fintype.Sets
import Mathlib.Logic.Relation

/-!
# Cycles

A partial function on ids, such as the one from a reply to its parent, is a relation that is right
unique. What is reached from a cycle of it lies on the cycle (`transGen_back`), and a relation with
finitely many members and no cycle is well-founded (`wellFounded_of_acyclic`).
-/

namespace Noticeboard

open Relation

section RightUnique

variable {α : Type} {r s : α → α → Prop} {a b c : α}

/-- What is reached from a cycle lies on it. -/
theorem transGen_back (hr : Relator.RightUnique r) (ha : TransGen r a a) (hb : TransGen r a b) :
    TransGen r b a := by
  have step {c d : α} (hc : TransGen r c a) (hcd : r c d) : TransGen r d a := by
    obtain ⟨e, hce, hea⟩ := TransGen.head'_iff.1 hc
    obtain rfl := hr hce hcd
    rcases reflTransGen_iff_eq_or_transGen.1 hea with rfl | hea
    · exact ha
    · exact hea
  induction hb with
  | single hab => exact step ha hab
  | tail _ hbc ih => exact step ih hbc

/-- A cycle of a smaller relation leaves the larger one no way out. -/
theorem transGen_of_le_of_cycle (hr : Relator.RightUnique r) (hsr : s ≤ r) (ha : TransGen s a a)
    (hb : TransGen r a b) : TransGen s a b := by
  have hs : Relator.RightUnique s := fun _ _ _ h h' => hr (hsr _ _ h) (hsr _ _ h')
  have step {c d : α} (hc : TransGen s a c) (hcd : r c d) : TransGen s a d := by
    obtain ⟨e, hce, _⟩ := TransGen.head'_iff.1 (transGen_back hs ha hc)
    obtain rfl := hr (hsr _ _ hce) hcd
    exact hc.tail hce
  induction hb with
  | single hab =>
    obtain ⟨e, hae, _⟩ := TransGen.head'_iff.1 ha
    obtain rfl := hr (hsr _ _ hae) hab
    exact .single hae
  | tail _ hbc ih => exact step ih hbc

end RightUnique

/-- Among finitely many members, going on without coming back comes to an end. -/
theorem wellFounded_of_acyclic {α : Type} {r : α → α → Prop} {l : List α}
    (hmem : ∀ a b, r a b → a ∈ l) (hr : ∀ a, ¬ TransGen r a a) : WellFounded r := by
  classical
  let before (a b : {a // a ∈ l}) : Prop := TransGen r a.1 b.1
  have : IsTrans _ before := ⟨fun _ _ _ hab hbc => hab.trans hbc⟩
  have : Std.Irrefl before := ⟨fun _ => hr _⟩
  have hwf : WellFounded before := Finite.wellFounded_of_trans_of_irrefl before
  have hacc (a : {a // a ∈ l}) : Acc r a.1 := by
    induction a using hwf.induction with
    | _ a ih => exact Acc.intro _ fun b hba => ih ⟨b, hmem b a hba⟩ (.single hba)
  exact ⟨fun a => Acc.intro _ fun b hba => hacc ⟨b, hmem b a hba⟩⟩

end Noticeboard
