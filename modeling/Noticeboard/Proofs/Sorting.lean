import Mathlib.Order.Compare

/-!
# Sorted lists

Lists are sorted by a first key, such as a date, and where that leaves a tie by a second one, such as
an id. If no two entries have the same second key, the order is strict
(`pairwise_mergeSort_keys`), so that nothing is listed twice and only one order will do.
-/

namespace Noticeboard

variable {α β γ : Type}

theorem pairwise_mergeSort_cmp (cmp : α → α → Ordering) [Std.TransCmp cmp] (l : List α) :
    (l.mergeSort fun a b => (cmp a b).isLE).Pairwise fun a b => (cmp a b).isLE = true := by
  refine List.pairwise_mergeSort (fun a b c => Std.TransCmp.isLE_trans) (fun a b => ?_) l
  have hswap : cmp b a = (cmp a b).swap := Std.OrientedCmp.eq_swap
  rw [hswap]
  cases cmp a b <;> rfl

theorem compare_lt_of_isLE [Ord α] [Std.LawfulEqOrd α] {a b : α}
    (h : (compare a b).isLE = true) (hne : a ≠ b) : compare a b = .lt := by
  cases hab : compare a b with
  | lt => rfl
  | eq => exact absurd (Std.LawfulEqOrd.eq_of_compare hab) hne
  | gt => simp [hab] at h

/-- The first keys differ, or they tie and the second keys differ. -/
theorem lt_or_lt_of_isLE_then [Ord β] [Std.LawfulEqOrd β] [Ord γ] [Std.LawfulEqOrd γ] {a b : β}
    {x y : γ} (h : ((compare a b).then (compare x y)).isLE = true) (hne : x ≠ y) :
    compare a b = .lt ∨ (a = b ∧ compare x y = .lt) := by
  cases hab : compare a b with
  | lt => exact .inl rfl
  | eq =>
    rw [hab] at h
    exact .inr ⟨Std.LawfulEqOrd.eq_of_compare hab, compare_lt_of_isLE h hne⟩
  | gt =>
    rw [hab] at h
    cases h

/-- A list is in strict order by the first key and then by the second one, of which no two entries
have the same. -/
theorem pairwise_mergeSort_keys [Ord β] [Std.TransOrd β] [Std.LawfulEqOrd β] [Ord γ]
    [Std.TransOrd γ] [Std.LawfulEqOrd γ] {f : α → β} {g : α → γ} {l : List α}
    (h : (l.map g).Nodup) :
    (l.mergeSort fun a b => (compareLex (compareOn f) (compareOn g) a b).isLE).Pairwise fun a b =>
      compare (f a) (f b) = .lt ∨ (f a = f b ∧ compare (g a) (g b) = .lt) := by
  have hsorted := pairwise_mergeSort_cmp (compareLex (compareOn f) (compareOn g)) l
  have hperm :=
    (List.mergeSort_perm l fun a b => (compareLex (compareOn f) (compareOn g) a b).isLE).map g
  exact hsorted.imp₂ (fun a b => lt_or_lt_of_isLE_then) (List.pairwise_map.1 (hperm.nodup_iff.2 h))

end Noticeboard
