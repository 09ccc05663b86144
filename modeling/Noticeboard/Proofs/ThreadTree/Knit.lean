import Mathlib.Data.Set.Insert
import Noticeboard.Proofs.Collections
import Noticeboard.ThreadTree

/-!
# Knit trees

In a tree that is knit, the children of every slot and the members under the root are exactly the
stored replies that say so, and every ghost stands for at least one waiting reply and is dated by the
earliest. While a message arrives or departs, some replies are `loose`: they have a slot, and say
where they hung last, but are attached nowhere.

`Knit.unlink` and `Knit.link` say how attaching and detaching change the set of loose replies, and
`Knit.ext` that a knit tree without loose replies is determined by its root and by its replies
without their children (`bare?`).
-/

namespace Noticeboard

/-- The stored reply in a slot without its children. -/
def Slot.bare? : Slot → Option Reply
  | reply r => some { r with children := ∅ }
  | ghost _ => none

namespace ThreadTree

/-! ## What a tree says of its replies -/

/-- A stored reply without its children. -/
def bare? (t : ThreadTree) (id : MessageId) : Option Reply := t.nodes[id]?.bind Slot.bare?

/-- Where a stored reply says that it hangs. -/
def linkOf? (t : ThreadTree) (id : MessageId) : Option Link := (t.bare? id).map (·.parent)

/-- The date of a stored reply. -/
def dateOf? (t : ThreadTree) (id : MessageId) : Option Timestamp := (t.bare? id).map (·.created)

/-- The earliest date of some stored replies. -/
def IsEarliest (t : ThreadTree) (ids : IdSet) (d : Timestamp) : Prop :=
  (∃ c ∈ ids, t.dateOf? c = some d) ∧ ∀ c ∈ ids, ∀ e, t.dateOf? c = some e → d ≤ e

/-- Children, members under the root and ghosts are as the stored replies say, except for the
`loose` replies, which are attached nowhere. -/
structure Knit (t : ThreadTree) (loose : Set MessageId) : Prop where
  mem_children : ∀ (q : MessageId) (slot : Slot), t.nodes[q]? = some slot → ∀ c,
    c ∈ slot.children ↔ c ∉ loose ∧ t.linkOf? c = some (.node q)
  parent_mem : ∀ c q, c ∉ loose → t.linkOf? c = some (.node q) → ∃ slot, t.nodes[q]? = some slot
  mem_top : ∀ c, c ∈ t.top ↔
    (c ∉ loose ∧ t.linkOf? c = some .root) ∨ ∃ g, t.nodes[c]? = some (.ghost g)
  dated : ∀ (q : MessageId) (g : Ghost), t.nodes[q]? = some (.ghost g) →
    t.IsEarliest g.children g.estimated

section

variable {t t' : ThreadTree} {loose loose' : Set MessageId} {id c q p : MessageId} {l : Link}
  {r : Reply} {g : Ghost} {slot : Slot}

theorem bare?_of_reply (h : t.nodes[id]? = some (.reply r)) :
    t.bare? id = some { r with children := ∅ } := by
  simp [bare?, h, Slot.bare?]

theorem bare?_of_ghost (h : t.nodes[id]? = some (.ghost g)) : t.bare? id = none := by
  simp [bare?, h, Slot.bare?]

theorem bare?_of_none (h : t.nodes[id]? = none) : t.bare? id = none := by
  simp [bare?, h]

theorem bare?_eq_map (t : ThreadTree) (id : MessageId) :
    t.bare? id = (t.reply? id).map fun r => { r with children := ∅ } := by
  rcases h : t.nodes[id]? with _ | r | g <;> simp [bare?, reply?, h, Slot.bare?, Slot.reply?]

theorem reply?_eq_some (h : t.reply? id = some r) : t.nodes[id]? = some (.reply r) := by
  rcases hid : t.nodes[id]? with _ | r' | g <;> simp_all [reply?, Slot.reply?]

theorem linkOf?_of_ghost (h : t.nodes[id]? = some (.ghost g)) : t.linkOf? id = none := by
  rw [linkOf?, bare?_of_ghost h, Option.map_none]

theorem linkOf?_eq_some_iff : t.linkOf? id = some l ↔ ∃ r, t.reply? id = some r ∧ r.parent = l := by
  simp [linkOf?, bare?_eq_map]

theorem linkOf?_congr (h : t'.bare? = t.bare?) : t'.linkOf? = t.linkOf? := by
  unfold linkOf?
  rw [h]

theorem isEarliest_congr (h : t'.dateOf? = t.dateOf?) : t'.IsEarliest = t.IsEarliest := by
  unfold IsEarliest
  rw [h]

theorem dateOf?_congr (h : t'.bare? = t.bare?) : t'.dateOf? = t.dateOf? := by
  unfold dateOf?
  rw [h]

/-! ## Operations keep the replies -/

theorem bare?_insert (h : t'.nodes = t.nodes.insert q slot) (id : MessageId) :
    t'.bare? id = if q = id then slot.bare? else t.bare? id := by
  simp only [bare?, h, Std.ExtTreeMap.getElem?_insert, Std.LawfulEqOrd.compare_eq_iff_eq]
  split <;> rfl

theorem bare?_erase (h : t'.nodes = t.nodes.erase q) (id : MessageId) :
    t'.bare? id = if q = id then none else t.bare? id := by
  simp only [bare?, h, Std.ExtTreeMap.getElem?_erase, Std.LawfulEqOrd.compare_eq_iff_eq]
  split <;> rfl

/-- Replacing the slot of a reply or ghost keeps the replies, if the slot does. -/
theorem bare?_insert_same (h : t'.nodes = t.nodes.insert q slot)
    (hq : t.nodes[q]?.bind Slot.bare? = slot.bare?) : t'.bare? = t.bare? := by
  funext id
  rw [bare?_insert h]
  split
  · next he => rw [← hq, ← he, bare?]
  · rfl

/-- Detaching leaves every reply as it is, apart from children. -/
theorem bare?_unlink (t : ThreadTree) (c : MessageId) (l : Link) :
    (t.unlink c l).1.bare? = t.bare? := by
  cases l with
  | root => rfl
  | node p =>
    rw [unlink, removeChild]
    split
    · next r hp => exact bare?_insert_same rfl (by rw [hp]; rfl)
    · next g hp =>
      dsimp only
      split
      · funext id
        rw [bare?_erase rfl]
        split
        · next he => rw [← he, bare?_of_ghost hp]
        · rfl
      · exact bare?_insert_same rfl (by rw [hp]; rfl)
    · rfl

/-- Attaching a child leaves every reply as it is, apart from children. -/
theorem bare?_addChild (t : ThreadTree) (c : MessageId) (d : Timestamp) (p : MessageId) :
    (t.addChild c d p).1.bare? = t.bare? := by
  rw [addChild]
  split
  · next r hp => exact bare?_insert_same rfl (by rw [hp]; rfl)
  · next g hp => exact bare?_insert_same rfl (by rw [hp]; rfl)
  · next hp => exact bare?_insert_same rfl (by rw [hp]; rfl)

theorem bare?_setParent (t : ThreadTree) (c : MessageId) (l : Link) (id : MessageId) :
    (t.setParent c l).bare? id =
      if c = id then (t.bare? c).map fun r => { r with parent := l } else t.bare? id := by
  rw [setParent]
  split
  · next r hr =>
    rw [bare?_insert rfl, bare?_of_reply (reply?_eq_some hr)]
    rfl
  · next hr =>
    split
    · next he => rw [← he, bare?_eq_map, hr, Option.map_none, Option.map_none]
    · rfl

theorem setParent_eq (t : ThreadTree) (c : MessageId) (l : Link) : t.setParent c l = t ∨
    ∃ r, t.nodes[c]? = some (.reply r) ∧
      t.setParent c l = { t with nodes := t.nodes.insert c (.reply { r with parent := l }) } := by
  rw [setParent]
  split
  · next r hr => exact .inr ⟨r, reply?_eq_some hr, rfl⟩
  · exact .inl rfl

theorem bare?_link (t : ThreadTree) (c : MessageId) (d : Timestamp) (l : Link) (id : MessageId) :
    (t.link c d l).1.bare? id =
      if c = id then (t.bare? c).map fun r => { r with parent := l } else t.bare? id := by
  cases l with
  | root => exact bare?_setParent t c .root id
  | node p => exact (congrFun (bare?_addChild _ c d p) id).trans (bare?_setParent t c _ id)

/-! ## Operations keep the root -/

theorem root_unlink (t : ThreadTree) (c : MessageId) (l : Link) :
    (t.unlink c l).1.id = t.id ∧ (t.unlink c l).1.root = t.root := by
  cases l with
  | root => exact ⟨rfl, rfl⟩
  | node p =>
    rw [unlink, removeChild]
    split
    · exact ⟨rfl, rfl⟩
    · dsimp only
      split <;> exact ⟨rfl, rfl⟩
    · exact ⟨rfl, rfl⟩

theorem root_link (t : ThreadTree) (c : MessageId) (d : Timestamp) (l : Link) :
    (t.link c d l).1.id = t.id ∧ (t.link c d l).1.root = t.root := by
  have hset : (t.setParent c l).id = t.id ∧ (t.setParent c l).root = t.root := by
    rw [setParent]
    split <;> exact ⟨rfl, rfl⟩
  cases l with
  | root => exact hset
  | node p =>
    rw [link, addChild]
    split <;> exact hset

/-! ## Detaching -/

/-- Whether an id counts as loose matters for stored replies alone. -/
theorem Knit.congr (h : t.Knit loose)
    (hloose : ∀ c l, t.linkOf? c = some l → (c ∈ loose' ↔ c ∈ loose)) : t.Knit loose' where
  mem_children q slot hq c := by
    rw [h.mem_children q slot hq c]
    exact and_congr_left fun hc => not_congr (hloose c _ hc).symm
  parent_mem c q hc hlink := h.parent_mem c q (fun hl => hc ((hloose c _ hlink).2 hl)) hlink
  mem_top c := by
    rw [h.mem_top c]
    exact or_congr_left (and_congr_left fun hc => not_congr (hloose c _ hc).symm)
  dated := h.dated

/-- The state of the root does not matter. -/
theorem Knit.setRoot (h : t.Knit loose) (root : Root) : { t with root }.Knit loose :=
  ⟨h.mem_children, h.parent_mem, h.mem_top, h.dated⟩

theorem isEarliest_earliest? {ids : IdSet} {d : Timestamp} (hne : ∃ c, c ∈ ids)
    (hids : ∀ c ∈ ids, ∃ e, t.dateOf? c = some e) :
    t.IsEarliest ids ((t.earliest? ids).getD d) := by
  have hreply (c : MessageId) : (t.reply? c).map (·.created) = t.dateOf? c := by
    simp [dateOf?, bare?_eq_map, Function.comp_def]
  have hmem {e : Timestamp} : e ∈ (ids.toList.filterMap fun id => (t.reply? id).map (·.created)) ↔
      ∃ c ∈ ids, t.dateOf? c = some e := by
    simp [hreply]
  obtain ⟨c, hc⟩ := hne
  obtain ⟨e, he⟩ := hids c hc
  rw [earliest?]
  cases hmin : (ids.toList.filterMap fun id => (t.reply? id).map (·.created)).min? with
  | none =>
    rw [List.min?_eq_none_iff] at hmin
    rw [hmin] at hmem
    exact absurd (hmem.2 ⟨c, hc, he⟩) List.not_mem_nil
  | some first =>
    obtain ⟨hfirst, hall⟩ := List.min?_eq_some_iff.1 hmin
    exact ⟨hmem.1 hfirst, fun c hc e he => hall e (hmem.2 ⟨c, hc, he⟩)⟩

theorem Knit.unlink_root (h : t.Knit loose) (hc : t.linkOf? c = some .root) :
    (t.unlink c .root).1.Knit (insert c loose) where
  mem_children q slot hq x := by
    rw [h.mem_children q slot hq x, linkOf?_congr (bare?_unlink t c .root)]
    grind
  parent_mem x q hx hq := h.parent_mem x q (fun hl => hx (Set.mem_insert_of_mem c hl)) hq
  mem_top x := by
    have hx := h.mem_top x
    have hg {g : Ghost} (hg : t.nodes[c]? = some (.ghost g)) := linkOf?_of_ghost hg
    rw [linkOf?_congr (bare?_unlink t c .root)]
    simp only [ThreadTree.unlink, Std.ExtTreeSet.mem_erase]
    grind
  dated := h.dated

/-- One child joins or leaves a slot that stays. -/
theorem Knit.replaceSlot {slot' : Slot} (h : t.Knit loose) (hc : t.linkOf? c = some (.node p))
    (hp : t.nodes[p]? = some slot) (hbare : slot'.bare? = slot.bare?)
    (hloose : ∀ x, x ≠ c → (x ∈ loose' ↔ x ∈ loose))
    (hchildren : ∀ x, x ∈ slot'.children ↔ x ∉ loose' ∧ t.linkOf? x = some (.node p))
    (hdated : ∀ g, slot' = .ghost g → t.IsEarliest g.children g.estimated) :
    { t with nodes := t.nodes.insert p slot' }.Knit loose' := by
  have hsame : { t with nodes := t.nodes.insert p slot' }.bare? = t.bare? :=
    bare?_insert_same rfl (by rw [hp, hbare]; rfl)
  have hget (q : MessageId) :
      (t.nodes.insert p slot')[q]? = if p = q then some slot' else t.nodes[q]? := by
    simp [Std.ExtTreeMap.getElem?_insert]
  have hghost : (∃ g, slot' = .ghost g) ↔ ∃ g, slot = .ghost g := by
    cases slot <;> cases slot' <;> simp_all [Slot.bare?]
  constructor
  all_goals simp only [linkOf?_congr hsame, isEarliest_congr (dateOf?_congr hsame), hget]
  · intro q s hq x
    have := h.mem_children q
    have := hloose x
    grind
  · intro x q hx hq
    by_cases hpq : p = q
    · exact ⟨slot', if_pos hpq⟩
    · have hxc : x ≠ c := by grind
      rw [if_neg hpq]
      exact h.parent_mem x q (fun hl => hx ((hloose x hxc).2 hl)) hq
  · intro x
    have := h.mem_top x
    have := hloose x
    grind
  · intro q g hq
    have := h.dated q g
    grind

theorem Knit.eraseChild {slot' : Slot} (h : t.Knit loose) (hc : t.linkOf? c = some (.node p))
    (hp : t.nodes[p]? = some slot) (hbare : slot'.bare? = slot.bare?)
    (hchildren : slot'.children = slot.children.erase c)
    (hdated : ∀ g, slot' = .ghost g → t.IsEarliest g.children g.estimated) :
    { t with nodes := t.nodes.insert p slot' }.Knit (insert c loose) := by
  refine h.replaceSlot hc hp hbare (fun x hx => by simp [hx]) (fun x => ?_) hdated
  have := h.mem_children p slot hp x
  rw [hchildren]
  grind

/-- The last child leaves a ghost, which goes. -/
theorem Knit.eraseGhost (h : t.Knit loose) (hc : t.linkOf? c = some (.node p))
    (hp : t.nodes[p]? = some (.ghost g)) (hlast : (g.children.erase c).isEmpty) :
    { t with nodes := t.nodes.erase p, top := t.top.erase p }.Knit (insert c loose) := by
  have hsame : { t with nodes := t.nodes.erase p, top := t.top.erase p }.bare? = t.bare? := by
    funext id
    rw [bare?_erase rfl]
    split
    · next he => rw [← he, bare?_of_ghost hp]
    · rfl
  have hget (q : MessageId) : (t.nodes.erase p)[q]? = if p = q then none else t.nodes[q]? := by
    simp [Std.ExtTreeMap.getElem?_erase]
  have hlast' (x : MessageId) (hx : x ∈ g.children) : x = c := by
    have : x ∉ g.children.erase c := by simp [Std.ExtTreeSet.isEmpty_iff.1 hlast]
    grind
  have hproot := linkOf?_of_ghost hp
  have hchildren := h.mem_children p _ hp
  constructor
  all_goals simp only [linkOf?_congr hsame, isEarliest_congr (dateOf?_congr hsame), hget,
    Std.ExtTreeSet.mem_erase]
  · intro q s hq x
    have := h.mem_children q
    grind
  · intro x q hx hq
    have := h.parent_mem x q
    have hx' : q = p → x = c := fun he => hlast' x ((hchildren x).2 ⟨by grind, he ▸ hq⟩)
    grind
  · intro x
    have := h.mem_top x
    grind
  · intro q g hq
    have := h.dated q g
    grind

/-- A reply whose parent has no slot is loose already. -/
theorem Knit.eraseNowhere (h : t.Knit loose) (hc : t.linkOf? c = some (.node p))
    (hp : t.nodes[p]? = none) : t.Knit (insert c loose) := by
  have hloose : c ∈ loose := by
    by_contra hl
    obtain ⟨slot, hslot⟩ := h.parent_mem c p hl hc
    rw [hp] at hslot
    cases hslot
  rwa [Set.insert_eq_of_mem hloose]

/-- Detaching a reply makes it loose. -/
theorem Knit.unlink (h : t.Knit loose) (hc : t.linkOf? c = some l) :
    (t.unlink c l).1.Knit (insert c loose) := by
  cases l with
  | root => exact h.unlink_root hc
  | node p =>
    rw [ThreadTree.unlink, removeChild]
    split
    · next r hp => exact h.eraseChild hc hp rfl rfl (fun _ hg => by cases hg)
    · next g hp =>
      dsimp only
      split
      · next hlast => exact h.eraseGhost hc hp hlast
      · next hkept =>
        refine h.eraseChild hc hp rfl rfl fun g' hg' => ?_
        cases hg'
        refine isEarliest_earliest? (exists_mem_of_not_isEmpty hkept) fun x hx => ?_
        have hx := (h.mem_children p _ hp x).1 (Std.ExtTreeSet.mem_of_mem_erase hx)
        obtain ⟨r, hr, -⟩ := Option.map_eq_some_iff.1 hx.2
        exact ⟨r.created, by simp [dateOf?, hr]⟩
    · next hp => exact h.eraseNowhere hc hp

/-! ## Attaching -/

/-- Where a loose reply says that it hangs does not matter to the others. -/
theorem Knit.setParent (h : t.Knit loose) (hc : c ∈ loose) (l : Link) :
    (t.setParent c l).Knit loose := by
  have hlink (x : MessageId) (hx : x ∉ loose) : (t.setParent c l).linkOf? x = t.linkOf? x := by
    have hne : c ≠ x := fun he => hx (he ▸ hc)
    rw [linkOf?, bare?_setParent, if_neg hne, linkOf?]
  have hdate : (t.setParent c l).dateOf? = t.dateOf? := by
    funext x
    rw [dateOf?, bare?_setParent]
    split
    · next he => simp [← he, dateOf?, Function.comp_def]
    · rfl
  have hreply := t.setParent_eq c l
  rcases hreply with hsame | ⟨r, hr, hset⟩
  · rwa [hsame]
  have hnodes (q : MessageId) : (t.setParent c l).nodes[q]? =
      if c = q then some (.reply { r with parent := l }) else t.nodes[q]? := by
    simp [hset, Std.ExtTreeMap.getElem?_insert]
  have htop : (t.setParent c l).top = t.top := by rw [hset]
  have hold := h.mem_children c _ hr
  constructor
  all_goals simp only [hnodes, htop, isEarliest_congr hdate]
  · intro q slot hq x
    have := h.mem_children q
    grind [Slot.children]
  · intro x q hx hq
    have := h.parent_mem x q hx
    grind
  · intro x
    have := h.mem_top x
    grind
  · intro q g hq
    have := h.dated q g
    grind

theorem Knit.insertChild {slot' : Slot} (h : t.Knit loose) (hc : t.linkOf? c = some (.node p))
    (hp : t.nodes[p]? = some slot) (hbare : slot'.bare? = slot.bare?)
    (hchildren : slot'.children = slot.children.insert c)
    (hdated : ∀ g, slot' = .ghost g → t.IsEarliest g.children g.estimated) :
    { t with nodes := t.nodes.insert p slot' }.Knit (loose \ {c}) := by
  refine h.replaceSlot hc hp hbare (fun x hx => by simp [hx]) (fun x => ?_) hdated
  have := h.mem_children p slot hp x
  rw [hchildren]
  grind

/-- A child whose parent has no slot makes a ghost of it. -/
theorem Knit.insertGhost {d : Timestamp} (h : t.Knit loose) (hc : t.linkOf? c = some (.node p))
    (hp : t.nodes[p]? = none) (hd : t.dateOf? c = some d) :
    { t with nodes := t.nodes.insert p (.ghost ⟨d, {c}⟩), top := t.top.insert p }.Knit
      (loose \ {c}) := by
  have hsame : { t with
      nodes := t.nodes.insert p (.ghost ⟨d, {c}⟩), top := t.top.insert p }.bare? = t.bare? :=
    bare?_insert_same rfl (by rw [hp]; rfl)
  have hget (q : MessageId) : (t.nodes.insert p (.ghost ⟨d, {c}⟩))[q]? =
      if p = q then some (.ghost ⟨d, {c}⟩) else t.nodes[q]? := by
    simp [Std.ExtTreeMap.getElem?_insert]
  have hone (x : MessageId) : x ∈ ({c} : IdSet) ↔ c = x := by simp
  have hearly : t.IsEarliest {c} d := by
    refine ⟨⟨c, by simp, hd⟩, fun x hx e he => ?_⟩
    grind
  have hnone (x : MessageId) (hx : x ∉ loose) : t.linkOf? x ≠ some (.node p) := by
    intro hlink
    obtain ⟨slot, hslot⟩ := h.parent_mem x p hx hlink
    rw [hp] at hslot
    cases hslot
  have hproot : t.linkOf? p = none := by rw [linkOf?, bare?_of_none hp, Option.map_none]
  constructor
  all_goals simp only [linkOf?_congr hsame, isEarliest_congr (dateOf?_congr hsame), hget,
    Std.ExtTreeSet.mem_insert]
  · intro q s hq x
    have := h.mem_children q
    grind [Slot.children]
  · intro x q hx hq
    have := h.parent_mem x q
    grind
  · intro x
    have := h.mem_top x
    grind
  · intro q g hq
    have := h.dated q g
    grind

theorem Knit.insertTop (h : t.Knit loose) (hc : t.linkOf? c = some .root) :
    { t with top := t.top.insert c }.Knit (loose \ {c}) := by
  have hlink : { t with top := t.top.insert c }.linkOf? = t.linkOf? := rfl
  constructor
  all_goals simp only [hlink, Std.ExtTreeSet.mem_insert]
  · intro q slot hq x
    have := h.mem_children q slot hq x
    grind
  · intro x q hx hq
    exact h.parent_mem x q (by grind) hq
  · intro x
    have hx := h.mem_top x
    grind
  · exact h.dated

theorem isEarliest_insert {ids : IdSet} {d e : Timestamp} (h : t.IsEarliest ids d)
    (hc : t.dateOf? c = some e) : t.IsEarliest (ids.insert c) (min d e) := by
  obtain ⟨⟨x, hx, hxd⟩, hall⟩ := h
  constructor
  · rcases Std.min_eq_or (a := d) (b := e) with hmin | hmin
    · exact ⟨x, Std.ExtTreeSet.mem_insert.2 (.inr hx), by rw [hmin]; exact hxd⟩
    · exact ⟨c, Std.ExtTreeSet.mem_insert_self, by rw [hmin]; exact hc⟩
  · intro y hy e' he'
    rcases Std.ExtTreeSet.mem_insert.1 hy with hcy | hy
    · rw [← Std.LawfulEqOrd.eq_of_compare hcy, hc] at he'
      cases he'
      exact Std.min_le_right
    · exact Std.le_trans Std.min_le_left (hall y hy e' he')

theorem Knit.addChild {d : Timestamp} (h : t.Knit loose) (hc : t.linkOf? c = some (.node p))
    (hd : t.dateOf? c = some d) : (t.addChild c d p).1.Knit (loose \ {c}) := by
  rw [ThreadTree.addChild]
  split
  · next r hp => exact h.insertChild hc hp rfl rfl (fun _ hg => by cases hg)
  · next g hp =>
    refine h.insertChild hc hp rfl rfl fun g' hg' => ?_
    cases hg'
    exact isEarliest_insert (h.dated p g hp) hd
  · next hp => exact h.insertGhost hc hp hd

/-- Attaching a loose reply makes it fast. -/
theorem Knit.link {d : Timestamp} (h : t.Knit loose) (hc : c ∈ loose) (hd : t.dateOf? c = some d)
    (l : Link) : (t.link c d l).1.Knit (loose \ {c}) := by
  obtain ⟨r, hr, hrd⟩ := Option.map_eq_some_iff.1 hd
  have hbare : (t.setParent c l).bare? c = some { r with parent := l } := by
    simp [bare?_setParent, hr]
  have hset := h.setParent hc l
  have hlink : (t.setParent c l).linkOf? c = some l := by simp [linkOf?, hbare]
  have hdate : (t.setParent c l).dateOf? c = some d := by simp [dateOf?, hbare, hrd]
  cases l with
  | root => exact hset.insertTop hlink
  | node p => exact hset.addChild hlink hdate

/-! ## New replies and departed ones -/

/-- A reply may take a free slot. -/
theorem Knit.insertSlot (h : t.Knit loose) (hid : t.nodes[id]? = none) (hr : r.children = ∅) :
    { t with nodes := t.nodes.insert id (.reply r) }.Knit (insert id loose) := by
  have hget (q : MessageId) :
      (t.nodes.insert id (.reply r))[q]? = if id = q then some (.reply r) else t.nodes[q]? := by
    simp [Std.ExtTreeMap.getElem?_insert]
  have hlink (x : MessageId) (hx : id ≠ x) :
      { t with nodes := t.nodes.insert id (.reply r) }.linkOf? x = t.linkOf? x := by
    rw [linkOf?, bare?_insert rfl, if_neg hx, linkOf?]
  have hdate (x : MessageId) (hx : id ≠ x) :
      { t with nodes := t.nodes.insert id (.reply r) }.dateOf? x = t.dateOf? x := by
    rw [dateOf?, bare?_insert rfl, if_neg hx, dateOf?]
  have hnone (x : MessageId) (hx : x ∉ loose) : t.linkOf? x ≠ some (.node id) := by
    intro hlink
    obtain ⟨slot, hslot⟩ := h.parent_mem x id hx hlink
    rw [hid] at hslot
    cases hslot
  have hfree : t.linkOf? id = none := by rw [linkOf?, bare?_of_none hid, Option.map_none]
  have hdfree : t.dateOf? id = none := by rw [dateOf?, bare?_of_none hid, Option.map_none]
  constructor
  all_goals simp only [hget]
  · intro q s hq x
    have := h.mem_children q
    have hempty : x ∉ (∅ : IdSet) := Std.ExtTreeSet.not_mem_empty
    grind [Slot.children]
  · intro x q hx hq
    have := h.parent_mem x q
    grind
  · intro x
    have := h.mem_top x
    grind
  · intro q g hq
    have hq' : t.nodes[q]? = some (.ghost g) := by grind
    have hchild (x : MessageId) (hx : x ∈ g.children) : id ≠ x := by
      rintro rfl
      have hx := ((h.mem_children q _ hq' id).1 hx).2
      rw [hfree] at hx
      cases hx
    obtain ⟨⟨c, hc, hcd⟩, hall⟩ := h.dated q g hq'
    refine ⟨⟨c, hc, (hdate c (hchild c hc)).trans hcd⟩, fun x hx e he => hall x hx e ?_⟩
    rwa [← hdate x (hchild x hx)]

/-- A new reply is attached where it says. No reply names the slot that it takes, loose ones apart. -/
theorem Knit.insertReply (h : t.Knit loose) (hid : t.nodes[id]? = none) (hr : r.children = ∅) :
    (t.insertReply id r).1.Knit (loose \ {id}) := by
  have hslot := h.insertSlot hid hr
  have hd : { t with nodes := t.nodes.insert id (.reply r) }.dateOf? id = some r.created := by
    rw [dateOf?, bare?_insert rfl, if_pos rfl]
    rfl
  have hset : insert id loose \ {id} = loose \ {id} := by
    ext x
    grind
  exact hset ▸ hslot.link (Set.mem_insert id loose) hd r.parent

theorem bare?_insertReply (t : ThreadTree) (id : MessageId) (r : Reply) (x : MessageId) :
    (t.insertReply id r).1.bare? x = if id = x then some { r with children := ∅ } else t.bare? x := by
  rw [insertReply, bare?_link, bare?_insert rfl, if_pos rfl, bare?_insert rfl]
  by_cases hx : id = x <;> simp [hx, Slot.bare?]

theorem root_insertReply (t : ThreadTree) (id : MessageId) (r : Reply) :
    (t.insertReply id r).1.id = t.id ∧ (t.insertReply id r).1.root = t.root :=
  root_link _ id r.created r.parent

/-- A loose reply may leave its slot, which makes loose all that hang there. -/
theorem Knit.eraseReply (h : t.Knit loose) (hid : id ∈ loose) (hr : t.nodes[id]? = some (.reply r))
    (hloose : ∀ x, x ∈ loose' ↔ t.linkOf? x = some (.node id) ∨ (x ∈ loose ∧ x ≠ id)) :
    { t with nodes := t.nodes.erase id }.Knit loose' := by
  have hget (q : MessageId) : (t.nodes.erase id)[q]? = if id = q then none else t.nodes[q]? := by
    simp [Std.ExtTreeMap.getElem?_erase]
  have hlink (x : MessageId) : { t with nodes := t.nodes.erase id }.linkOf? x =
      if id = x then none else t.linkOf? x := by
    rw [linkOf?, bare?_erase rfl]
    split <;> rfl
  have hdate (x : MessageId) (hx : id ≠ x) :
      { t with nodes := t.nodes.erase id }.dateOf? x = t.dateOf? x := by
    rw [dateOf?, bare?_erase rfl, if_neg hx, dateOf?]
  constructor
  all_goals simp only [hget, hlink, hloose]
  · intro q s hq x
    have := h.mem_children q
    grind
  · intro x q hx hq
    have := h.parent_mem x q
    grind
  · intro x
    have := h.mem_top x
    grind
  · intro q g hq
    have hq' : t.nodes[q]? = some (.ghost g) := by grind
    have hchild (x : MessageId) (hx : x ∈ g.children) : id ≠ x := by
      rintro rfl
      exact ((h.mem_children q _ hq' id).1 hx).1 hid
    obtain ⟨⟨c, hc, hcd⟩, hall⟩ := h.dated q g hq'
    refine ⟨⟨c, hc, (hdate c (hchild c hc)).trans hcd⟩, fun x hx e he => hall x hx e ?_⟩
    rwa [← hdate x (hchild x hx)]

/-! ## What determines a tree -/

theorem IsEarliest.unique {ids : IdSet} {d e : Timestamp} (h : t.IsEarliest ids d)
    (h' : t.IsEarliest ids e) : d = e := by
  obtain ⟨⟨c, hc, hcd⟩, hall⟩ := h
  obtain ⟨⟨c', hc', hce⟩, hall'⟩ := h'
  exact Std.le_antisymm (hall c' hc' e hce) (hall' c hc d hcd)

/-- A slot of a knit tree is a slot of every knit tree with the same replies. -/
theorem Knit.getElem?_eq_some (h : t.Knit ∅) (h' : t'.Knit ∅) (hbare : t.bare? = t'.bare?)
    (hq : t.nodes[q]? = some slot) : t'.nodes[q]? = some slot := by
  have hlink := linkOf?_congr hbare
  have hsame : t.bare? q = t'.bare? q := by rw [hbare]
  have hmem (slot' : Slot) (hq' : t'.nodes[q]? = some slot') : slot.children = slot'.children := by
    refine Std.ExtTreeSet.ext_mem fun x => ?_
    rw [h.mem_children q slot hq x, h'.mem_children q slot' hq' x, hlink]
  cases slot with
  | reply r =>
    rw [bare?_of_reply hq] at hsame
    rcases hq' : t'.nodes[q]? with _ | r' | g'
    · rw [bare?_of_none hq'] at hsame
      cases hsame
    · have hchildren := hmem _ hq'
      rw [bare?_of_reply hq'] at hsame
      cases r
      cases r'
      simp_all [Slot.children]
    · rw [bare?_of_ghost hq'] at hsame
      cases hsame
  | ghost g =>
    obtain ⟨⟨c, hc, -⟩, -⟩ := h.dated q g hq
    have hcq := ((h.mem_children q _ hq c).1 hc).2
    rw [hlink] at hcq
    obtain ⟨slot', hq'⟩ := h'.parent_mem c q (Set.notMem_empty c) hcq
    rw [bare?_of_ghost hq] at hsame
    cases slot' with
    | reply r' =>
      rw [bare?_of_reply hq'] at hsame
      cases hsame
    | ghost g' =>
      have hchildren : g.children = g'.children := hmem _ hq'
      have hdate := h.dated q g hq
      rw [hchildren, isEarliest_congr (dateOf?_congr hbare)] at hdate
      have hestimated := hdate.unique (h'.dated q g' hq')
      cases g
      cases g'
      simp_all

/-- A knit tree is determined by its root and its replies, whatever their children. -/
theorem Knit.ext (h : t.Knit ∅) (h' : t'.Knit ∅) (hid : t.id = t'.id) (hroot : t.root = t'.root)
    (hbare : t.bare? = t'.bare?) : t = t' := by
  have hnodes : t.nodes = t'.nodes := by
    refine Std.ExtTreeMap.ext_getElem? fun q => Option.ext fun slot => ?_
    exact ⟨h.getElem?_eq_some h' hbare, h'.getElem?_eq_some h hbare.symm⟩
  have htop : t.top = t'.top := by
    refine Std.ExtTreeSet.ext_mem fun x => ?_
    rw [h.mem_top, h'.mem_top, linkOf?_congr hbare, hnodes]
  cases t
  cases t'
  simp_all

end

end ThreadTree

end Noticeboard
