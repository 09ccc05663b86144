import Noticeboard.Proofs.Relation
import Noticeboard.Proofs.ThreadTree.Knit

/-!
# Descending a tree

`Visits` says in which order `ThreadTree.descend` comes to the slots below a stack: each slot before
what hangs below it, and all of that before the rest of the stack. In a knit tree in which nothing
hangs below itself (`Acyclic`) the visit comes to an end, meets every slot at most once
(`Visits.nodup`), and therefore fits the number of steps that `ThreadTree.descendants` allows.

So `ThreadTree.descendants` lists the stored replies from which climbing leads to the slot
(`mem_descendants`), each once.
-/

namespace Noticeboard

open Relation

namespace ThreadTree

/-- The stored reply `c` hangs right under the member `p`. -/
def HangsUnder (t : ThreadTree) (c p : MessageId) : Prop := t.linkOf? c = some (.node p)

/-- No reply hangs below itself. -/
def Acyclic (t : ThreadTree) : Prop := ∀ id, ¬ TransGen t.HangsUnder id id

/-- From a stack, the slots are visited in this order. -/
inductive Visits (t : ThreadTree) : List MessageId → List MessageId → Prop
  | done : Visits t [] []
  | visit {id : MessageId} {stack below after : List MessageId} :
      Visits t (t.childrenOf id) below → Visits t stack after →
      Visits t (id :: stack) (id :: (below ++ after))

section

variable {t : ThreadTree} {loose : Set MessageId} {stack v : List MessageId} {c p x y id : MessageId}

theorem hangsUnder_rightUnique (t : ThreadTree) : Relator.RightUnique t.HangsUnder := by
  intro c p q hp hq
  rw [HangsUnder] at hp hq
  rw [hp] at hq
  cases hq
  rfl

theorem mem_childrenOf (h : t.Knit ∅) : c ∈ t.childrenOf p ↔ t.HangsUnder c p := by
  rw [childrenOf, HangsUnder]
  cases hp : t.nodes[p]? with
  | some slot =>
    rw [Std.ExtTreeSet.mem_toList, h.mem_children p slot hp]
    simp
  | none =>
    refine iff_of_false List.not_mem_nil fun hc => ?_
    obtain ⟨slot, hslot⟩ := h.parent_mem c p (Set.notMem_empty c) hc
    rw [hp] at hslot
    cases hslot

theorem nodup_childrenOf (t : ThreadTree) (p : MessageId) : (t.childrenOf p).Nodup := by
  rw [childrenOf]
  split
  · next slot _ => exact nodup_toList slot.children
  · exact List.nodup_nil

/-- What hangs below a slot is a stored reply. -/
theorem exists_reply?_of_below (h : TransGen t.HangsUnder c p) : ∃ r, t.reply? c = some r := by
  obtain ⟨q, hcq, -⟩ := TransGen.head'_iff.1 h
  obtain ⟨r, hr, -⟩ := linkOf?_eq_some_iff.1 hcq
  exact ⟨r, hr⟩

theorem HangsUnder.mem_nodes (h : t.HangsUnder c p) : c ∈ t.nodes := by
  obtain ⟨r, hr⟩ := exists_reply?_of_below (.single h)
  exact mem_iff_getElem?.2 ⟨_, reply?_eq_some hr⟩

/-! ## The order of visits -/

/-- What a visit meets: the stack, and all that hangs below it. -/
theorem Visits.mem_iff (hv : t.Visits stack v) (h : t.Knit ∅) :
    x ∈ v ↔ ∃ top ∈ stack, ReflTransGen t.HangsUnder x top := by
  induction hv with
  | done => simp
  | @visit id stack below after _ _ ihbelow ihafter =>
    have hid : (∃ top ∈ t.childrenOf id, ReflTransGen t.HangsUnder x top) ↔
        TransGen t.HangsUnder x id := by
      simp only [mem_childrenOf h, TransGen.tail'_iff, and_comm]
    rw [List.mem_cons, List.mem_append, ihbelow, ihafter, hid, List.exists_mem_cons_iff,
      reflTransGen_iff_eq_or_transGen, or_assoc, @eq_comm _ x id]

/-- Siblings, and members under the root, do not hang below each other. -/
def Apart (t : ThreadTree) (stack : List MessageId) : Prop :=
  stack.Pairwise fun a b => ∀ x, ReflTransGen t.HangsUnder x a → ¬ ReflTransGen t.HangsUnder x b

/-- Nothing hangs at or below two siblings. -/
theorem not_below_sibling (ha : t.Acyclic) {a b : MessageId} (hap : t.HangsUnder a p)
    (hbp : t.HangsUnder b p) (hne : a ≠ b) (hxa : ReflTransGen t.HangsUnder x a) :
    ¬ ReflTransGen t.HangsUnder x b := by
  -- If one sibling were below another, so would be their parent, which is above both.
  have hsibling {a b : MessageId} (hap : t.HangsUnder a p) (hbp : t.HangsUnder b p) (hne : a ≠ b) :
      ¬ ReflTransGen t.HangsUnder a b := by
    intro hab
    obtain ⟨q, haq, hqb⟩ := (ReflTransGen.cases_head hab).resolve_left hne
    obtain rfl := hangsUnder_rightUnique t hap haq
    exact ha p (TransGen.tail' hqb hbp)
  intro hxb
  rcases ReflTransGen.total_of_right_unique (hangsUnder_rightUnique t) hxa hxb with hab | hba
  · exact hsibling hap hbp hne hab
  · exact hsibling hbp hap (Ne.symm hne) hba

theorem apart_childrenOf (h : t.Knit ∅) (ha : t.Acyclic) (p : MessageId) :
    t.Apart (t.childrenOf p) := by
  refine (nodup_childrenOf t p).imp_of_mem fun {a b} hma hmb hne x hxa => ?_
  exact not_below_sibling ha ((mem_childrenOf h).1 hma) ((mem_childrenOf h).1 hmb) hne hxa

/-- No slot is visited twice. -/
theorem Visits.nodup (hv : t.Visits stack v) (h : t.Knit ∅) (ha : t.Acyclic)
    (hstack : t.Apart stack) : v.Nodup := by
  induction hv with
  | done => exact List.nodup_nil
  | @visit id stack below after hbelow hafter ihbelow ihafter =>
    obtain ⟨hid, hrest⟩ := List.pairwise_cons.1 hstack
    have hmem (x : MessageId) (hx : x ∈ below) : TransGen t.HangsUnder x id := by
      obtain ⟨c, hc, hxc⟩ := (hbelow.mem_iff h).1 hx
      exact TransGen.tail' hxc ((mem_childrenOf h).1 hc)
    have hapart (x : MessageId) (hx : ReflTransGen t.HangsUnder x id) : x ∉ after := by
      intro hafter'
      obtain ⟨top, htop, hxtop⟩ := (hafter.mem_iff h).1 hafter'
      exact hid top htop x hx hxtop
    refine List.nodup_cons.2 ⟨fun hself => ?_, List.nodup_append'.2 ⟨?_, ihafter hrest, ?_⟩⟩
    · rcases List.mem_append.1 hself with hself | hself
      · exact ha id (hmem id hself)
      · exact hapart id .refl hself
    · exact ihbelow (apart_childrenOf h ha id)
    · exact fun x hx => hapart x (hmem x hx).to_reflTransGen

theorem exists_visits_of_forall (hall : ∀ id ∈ stack, ∃ below, t.Visits (t.childrenOf id) below) :
    ∃ v, t.Visits stack v := by
  induction stack with
  | nil => exact ⟨[], .done⟩
  | cons id stack ih =>
    obtain ⟨⟨below, hbelow⟩, hall⟩ := List.forall_mem_cons.1 hall
    obtain ⟨after, hafter⟩ := ih hall
    exact ⟨_, .visit hbelow hafter⟩

/-- Every visit comes to an end. -/
theorem exists_visits (h : t.Knit ∅) (ha : t.Acyclic) (stack : List MessageId) :
    ∃ v, t.Visits stack v := by
  have hwf : WellFounded t.HangsUnder := wellFounded_of_acyclic (l := t.nodes.keys)
    (fun c p hc => Std.ExtTreeMap.mem_keys.2 hc.mem_nodes) ha
  have hbelow (id : MessageId) : ∃ below, t.Visits (t.childrenOf id) below := by
    induction id using hwf.induction with
    | _ id ih => exact exists_visits_of_forall fun c hc => ih c ((mem_childrenOf h).1 hc)
  exact exists_visits_of_forall fun id _ => hbelow id

/-! ## Descendants -/

/-- Following the order of visits, `descend` lists the slots that hold a reply. -/
theorem Visits.descend (hv : t.Visits stack v) (steps : Nat) (rest : List MessageId) :
    t.descend (v.length + steps) (stack ++ rest) =
      (t.descend steps rest).map (v.filter (fun id => (t.reply? id).isSome) ++ ·) := by
  induction hv generalizing steps rest with
  | done => simp
  | @visit id stack below after _ _ ihbelow ihafter =>
    have hlength : (id :: (below ++ after)).length + steps =
        below.length + (after.length + steps) + 1 := by
      simp only [List.length_cons, List.length_append]
      omega
    rw [hlength, List.cons_append, ThreadTree.descend, ihbelow, ihafter]
    split
    · next hid => simp [hid, Function.comp_def]
    · next hid => simp [hid, Function.comp_def]

/-- There are no more slots to visit than the tree has. -/
theorem Visits.length_le (hv : t.Visits stack v) (h : t.Knit ∅) (ha : t.Acyclic)
    (hstack : t.Apart stack) (hnodes : ∀ id ∈ stack, id ∈ t.nodes) : v.length ≤ t.nodes.size := by
  have hkeys : v ⊆ t.nodes.keys := by
    intro x hx
    obtain ⟨top, htop, hxtop⟩ := (hv.mem_iff h).1 hx
    rw [Std.ExtTreeMap.mem_keys]
    rcases hxtop.cases_head with rfl | ⟨p, hxp, -⟩
    · exact hnodes x htop
    · exact hxp.mem_nodes
  have hle := (List.subperm_of_subset (hv.nodup h ha hstack) hkeys).length_le
  rwa [Std.ExtTreeMap.length_keys] at hle

/-- The steps that are allowed are enough, and the replies are listed as they are visited. -/
theorem descend_childrenOf (h : t.Knit ∅) (ha : t.Acyclic) (id : MessageId) :
    ∃ v, t.Visits (t.childrenOf id) v ∧ v.Nodup ∧ t.descend t.nodes.size (t.childrenOf id) =
      some (v.filter fun id => (t.reply? id).isSome) := by
  obtain ⟨v, hv⟩ := exists_visits h ha (t.childrenOf id)
  have hapart := apart_childrenOf h ha id
  have hle := hv.length_le h ha hapart fun c hc => ((mem_childrenOf h).1 hc).mem_nodes
  have hdescend := hv.descend (t.nodes.size - v.length) []
  rw [Nat.add_sub_cancel' hle, List.append_nil] at hdescend
  refine ⟨v, hv, hv.nodup h ha hapart, hdescend.trans ?_⟩
  simp [ThreadTree.descend]

theorem nodup_descendants (h : t.Knit ∅) (ha : t.Acyclic) (id : MessageId) :
    (t.descendants id).Nodup := by
  obtain ⟨v, -, hnodup, hv⟩ := descend_childrenOf h ha id
  rw [descendants, hv]
  exact hnodup.filter _

/-- The descendants are the stored replies from which climbing leads to the slot. -/
theorem mem_descendants (h : t.Knit ∅) (ha : t.Acyclic) :
    c ∈ t.descendants id ↔ TransGen t.HangsUnder c id := by
  obtain ⟨v, hvisits, -, hv⟩ := descend_childrenOf h ha id
  rw [descendants, hv, Option.getD_some, List.mem_filter, hvisits.mem_iff h]
  constructor
  · rintro ⟨⟨top, htop, hc⟩, -⟩
    exact TransGen.tail' hc ((mem_childrenOf h).1 htop)
  · intro hc
    obtain ⟨top, hctop, htop⟩ := TransGen.tail'_iff.1 hc
    exact ⟨⟨top, (mem_childrenOf h).2 htop, hctop⟩,
      Option.isSome_iff_exists.2 (exists_reply?_of_below hc)⟩

end

end ThreadTree

end Noticeboard
