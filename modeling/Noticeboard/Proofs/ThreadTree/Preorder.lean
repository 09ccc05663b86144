import Noticeboard.Proofs.ThreadTree.Descent

/-!
# Depth-first order

`ThreadTree.descendants` works through a stack. In a knit tree without cycles it takes one step for
each reply that it lists (`descend_eq`), and what it lists is the recursive preorder: the children in
ascending order, each followed by its own descendants (`descendants_eq_flatMap`).

`Before` says which of two members comes first without following any list: a member comes before all
that hangs below it, and what hangs at or below a sibling comes before what hangs at or below a later
one. No two members come before each other (`Before.asymm`), so one list alone holds the replies
below a slot in this order (`listsBelow_iff`).
-/

namespace Noticeboard

open Relation

namespace ThreadTree

/-- Two members hang under the same slot, and `x` has the smaller id. -/
def SiblingLT (t : ThreadTree) (x y : MessageId) : Prop :=
  (∃ p, t.HangsUnder x p ∧ t.HangsUnder y p) ∧ compare x y = .lt

/-- Depth first `a` comes before `b`: `b` hangs below `a`, or they hang at or below two siblings of
which that of `a` has the smaller id. -/
def Before (t : ThreadTree) (a b : MessageId) : Prop :=
  TransGen t.HangsUnder b a ∨
    ∃ x y, t.SiblingLT x y ∧ ReflTransGen t.HangsUnder a x ∧ ReflTransGen t.HangsUnder b y

/-- The stored replies from which following parents leads to `id`, each once and depth first. -/
structure ListsBelow (t : ThreadTree) (id : MessageId) (l : List MessageId) : Prop where
  mem : ∀ c, c ∈ l ↔ (∃ r, t.reply? c = some r) ∧ TransGen t.HangsUnder c id
  nodup : l.Nodup
  ordered : l.Pairwise t.Before

section

variable {t : ThreadTree} {stack v v' l : List MessageId} {a b c p w x y id : MessageId}

/-! ## The steps of the stack -/

/-- A stack is visited in one order. -/
theorem Visits.unique (hv : t.Visits stack v) (hv' : t.Visits stack v') : v = v' := by
  induction hv generalizing v' with
  | done =>
    cases hv'
    rfl
  | visit _ _ ihbelow ihafter =>
    cases hv' with
    | visit hbelow hafter => rw [ihbelow hbelow, ihafter hafter]

/-- Fewer steps than there are slots to visit do not empty the stack. -/
theorem Visits.descend_eq_none (hv : t.Visits stack v) {steps : Nat} (hsteps : steps < v.length)
    (rest : List MessageId) : t.descend steps (stack ++ rest) = none := by
  induction hv generalizing steps rest with
  | done => cases hsteps
  | @visit id stack below after hbelow _ ihbelow ihafter =>
    cases steps with
    | zero => rfl
    | succ steps =>
      -- The steps run out below `id`, or they are enough for that and run out after it.
      have hnone : t.descend steps (t.childrenOf id ++ (stack ++ rest)) = none := by
        rcases Nat.lt_or_ge steps below.length with hlt | hge
        · exact ihbelow hlt _
        · have hlt : steps - below.length < after.length := by
            rw [List.length_cons, List.length_append] at hsteps
            omega
          rw [← Nat.add_sub_cancel' hge, hbelow.descend, ihafter hlt, Option.map_none]
      rw [List.cons_append, ThreadTree.descend, hnone, Option.map_none, ite_self]

/-- Below a slot there are replies only. -/
theorem Visits.filter_replies (hv : t.Visits (t.childrenOf id) v) (h : t.Knit ∅) :
    v.filter (fun c => (t.reply? c).isSome) = v := by
  refine List.filter_eq_self.2 fun c hc => ?_
  obtain ⟨top, htop, hctop⟩ := (hv.mem_iff h).1 hc
  have hbelow : TransGen t.HangsUnder c id := TransGen.tail' hctop ((mem_childrenOf h).1 htop)
  exact Option.isSome_iff_exists.2 (exists_reply?_of_below hbelow)

/-- The descendants of a slot are all that is visited below it. -/
theorem visits_descendants (h : t.Knit ∅) (ha : t.Acyclic) (id : MessageId) :
    t.Visits (t.childrenOf id) (t.descendants id) := by
  obtain ⟨v, hv, -, hdescend⟩ := descend_childrenOf h ha id
  rwa [descendants, hdescend, Option.getD_some, hv.filter_replies h]

/-- The stack is empty after as many steps as there are replies below the slot. -/
theorem descend_eq (h : t.Knit ∅) (ha : t.Acyclic) (id : MessageId) (steps : Nat) :
    t.descend steps (t.childrenOf id) =
      if (t.descendants id).length ≤ steps then some (t.descendants id) else none := by
  have hv := visits_descendants h ha id
  split
  · next hle =>
    have hdescend := hv.descend (steps - (t.descendants id).length) []
    rw [Nat.add_sub_cancel' hle, List.append_nil, hv.filter_replies h] at hdescend
    simp [hdescend, ThreadTree.descend]
  · next hlt =>
    have hnone := hv.descend_eq_none (Nat.lt_of_not_le hlt) []
    rwa [List.append_nil] at hnone

/-- A stack is visited slot by slot, each followed by its descendants. -/
theorem visits_flatMap (h : t.Knit ∅) (ha : t.Acyclic) (stack : List MessageId) :
    t.Visits stack (stack.flatMap fun c => c :: t.descendants c) := by
  induction stack with
  | nil => exact .done
  | cons id stack ih => exact .visit (visits_descendants h ha id) ih

theorem descendants_eq_flatMap (h : t.Knit ∅) (ha : t.Acyclic) (id : MessageId) :
    t.descendants id = (t.childrenOf id).flatMap fun c => c :: t.descendants c :=
  (visits_descendants h ha id).unique (visits_flatMap h ha _)

/-! ## Siblings -/

theorem pairwise_childrenOf (h : t.Knit ∅) (id : MessageId) :
    (t.childrenOf id).Pairwise t.SiblingLT := by
  have hsorted : (t.childrenOf id).Pairwise fun a b => compare a b = .lt := by
    rw [childrenOf]
    split
    · exact Std.ExtTreeSet.ordered_toList
    · exact .nil
  refine hsorted.imp_of_mem fun {a b} hma hmb hlt => ?_
  exact ⟨⟨id, (mem_childrenOf h).1 hma, (mem_childrenOf h).1 hmb⟩, hlt⟩

theorem SiblingLT.asymm (h : t.SiblingLT x y) : ¬ t.SiblingLT y x := by
  intro h'
  have hswap : compare y x = (compare x y).swap := Std.OrientedCmp.eq_swap
  rw [h.2, h'.2] at hswap
  cases hswap

theorem SiblingLT.apart (hxy : t.SiblingLT x y) (ha : t.Acyclic)
    (hx : ReflTransGen t.HangsUnder c x) : ¬ ReflTransGen t.HangsUnder c y := by
  obtain ⟨⟨p, hxp, hyp⟩, hlt⟩ := hxy
  refine not_below_sibling ha hxp hyp ?_ hx
  rintro rfl
  simp at hlt

/-- Siblings have the same above them. -/
theorem eq_or_below_of_sibling (hxp : t.HangsUnder x p) (hyp : t.HangsUnder y p)
    (hxw : ReflTransGen t.HangsUnder x w) : x = w ∨ ReflTransGen t.HangsUnder y w := by
  refine hxw.cases_head.imp_right ?_
  rintro ⟨q, hxq, hqw⟩
  obtain rfl := hangsUnder_rightUnique t hxp hxq
  exact .head hyp hqw

/-! ## Which of two members comes first -/

/-- Two members at or below two pairs of siblings are in the same order by both. -/
theorem SiblingLT.consistent {z : MessageId} (hxy : t.SiblingLT x y) (hzw : t.SiblingLT z w)
    (ha : t.Acyclic) (hax : ReflTransGen t.HangsUnder a x) (haw : ReflTransGen t.HangsUnder a w)
    (hby : ReflTransGen t.HangsUnder b y) : ¬ ReflTransGen t.HangsUnder b z := by
  intro hbz
  obtain ⟨p, hxp, hyp⟩ := hxy.1
  obtain ⟨q, hzq, hwq⟩ := hzw.1
  have hne : x ≠ w := by
    rintro rfl
    obtain rfl := hangsUnder_rightUnique t hxp hwq
    obtain rfl : y = z := by
      by_contra hyz
      exact not_below_sibling ha hyp hzq hyz hby hbz
    exact hxy.asymm hzw
  rcases ReflTransGen.total_of_right_unique (hangsUnder_rightUnique t) hax haw with hxw | hwx
  · have hyw := (eq_or_below_of_sibling hxp hyp hxw).resolve_left hne
    exact hzw.apart ha hbz (hby.trans hyw)
  · have hzx := (eq_or_below_of_sibling hwq hzq hwx).resolve_left hne.symm
    exact hxy.apart ha (hbz.trans hzx) hby

theorem Before.asymm (hab : t.Before a b) (ha : t.Acyclic) : ¬ t.Before b a := by
  intro hba
  rcases hab with hba' | ⟨x, y, hxy, hax, hby⟩
  · rcases hba with hab' | ⟨z, w, hzw, hbz, haw⟩
    · exact ha a (hab'.trans hba')
    · exact hzw.apart ha hbz (hba'.to_reflTransGen.trans haw)
  · rcases hba with hab' | ⟨z, w, hzw, hbz, haw⟩
    · exact hxy.apart ha hax (hab'.to_reflTransGen.trans hby)
    · exact hxy.consistent hzw ha hax haw hby hbz

/-- Slots that are visited from a stack of siblings are visited in order. -/
theorem Visits.ordered (hv : t.Visits stack v) (h : t.Knit ∅) (hstack : stack.Pairwise t.SiblingLT) :
    v.Pairwise t.Before := by
  induction hv with
  | done => exact .nil
  | @visit id stack below after hbelow hafter ihbelow ihafter =>
    obtain ⟨hid, hrest⟩ := List.pairwise_cons.1 hstack
    have hlater {a b : MessageId} (hai : ReflTransGen t.HangsUnder a id) (hb : b ∈ after) :
        t.Before a b := by
      obtain ⟨top, htop, hbtop⟩ := (hafter.mem_iff h).1 hb
      exact .inr ⟨id, top, hid top htop, hai, hbtop⟩
    have hunder {a : MessageId} (hma : a ∈ below) : TransGen t.HangsUnder a id := by
      obtain ⟨c, hc, hac⟩ := (hbelow.mem_iff h).1 hma
      exact TransGen.tail' hac ((mem_childrenOf h).1 hc)
    refine List.pairwise_cons.2 ⟨fun b hb => ?_, List.pairwise_append.2
      ⟨ihbelow (pairwise_childrenOf h id), ihafter hrest, fun a hma b hb => ?_⟩⟩
    · exact (List.mem_append.1 hb).elim (fun hb => .inl (hunder hb)) (hlater .refl)
    · exact hlater (hunder hma).to_reflTransGen hb

theorem listsBelow_descendants (h : t.Knit ∅) (ha : t.Acyclic) (id : MessageId) :
    t.ListsBelow id (t.descendants id) where
  mem c := by
    rw [mem_descendants h ha, iff_and_self]
    exact exists_reply?_of_below
  nodup := nodup_descendants h ha id
  ordered := (visits_descendants h ha id).ordered h (pairwise_childrenOf h id)

/-- The descendants are the only such list. -/
theorem listsBelow_iff (h : t.Knit ∅) (ha : t.Acyclic) :
    t.ListsBelow id l ↔ l = t.descendants id := by
  have hlists := listsBelow_descendants h ha id
  constructor
  · intro hl
    have hperm : l.Perm (t.descendants id) :=
      (List.perm_ext_iff_of_nodup hl.nodup hlists.nodup).2 fun c => (hl.mem c).trans (hlists.mem c).symm
    refine hperm.eq_of_pairwise (fun a b _ _ hab hba => ?_) hl.ordered hlists.ordered
    exact absurd hba (hab.asymm ha)
  · rintro rfl
    exact hlists

end

end ThreadTree

end Noticeboard
