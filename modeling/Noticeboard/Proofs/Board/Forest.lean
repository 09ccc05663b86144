import Noticeboard.Proofs.Board.Run

/-!
# The forest of a board

What a coherent board shows: the trees, one for each thread, depict the stored messages
(`Coherent.depicts`), each reply hangs where the rules place it (`Belongs`), every loop of named
parents is cut at one place, and climbing from any member of a tree comes to its root.
-/

namespace Noticeboard

namespace ThreadTree

variable {t : ThreadTree} {id : MessageId} {d : Timestamp}

theorem dateOf?_eq_some_iff :
    t.dateOf? id = some d ↔ ∃ r, t.reply? id = some r ∧ r.created = d := by
  simp [dateOf?, bare?_eq_map]

theorem ghost?_eq_some_iff {gh : Ghost} :
    t.ghost? id = some gh ↔ t.nodes[id]? = some (.ghost gh) := by
  rw [ghost?]
  rcases t.nodes[id]? with _ | r | g <;> simp [Slot.ghost?]

/-- Where a member hangs. Ghosts hang under the root. -/
def above? (t : ThreadTree) (id : MessageId) : Option Link :=
  t.nodes[id]?.map fun
    | .reply r => r.parent
    | .ghost _ => .root

theorem above?_of_reply? {r : Reply} (h : t.reply? id = some r) : t.above? id = some r.parent := by
  rw [above?, reply?_eq_some h, Option.map_some]

/-- Climbing from a member comes to the root. -/
inductive ReachesRoot (t : ThreadTree) : MessageId → Prop
  | top {id : MessageId} : t.above? id = some .root → ReachesRoot t id
  | under {id p : MessageId} : t.above? id = some (.node p) → ReachesRoot t p → ReachesRoot t id

end ThreadTree

namespace Board

variable {g : Board} {m : Message} {id k p : MessageId} {t : ThreadTree} {r : Reply} {l : Link}

/-! ## Trees -/

/-- The tree `t` of thread `k` shows the messages of the board `g`. -/
structure Depicts (g : Board) (k : MessageId) (t : ThreadTree) : Prop where
  root_stored : t.root = .stored ↔ g.Starts k
  root_deleted : t.root = .deleted ↔ k ∈ g.deletedRoots
  /-- A deleted root leaves at least one reply. -/
  of_deleted : t.root = .deleted → ∃ id r, t.reply? id = some r
  /-- The replies are those of the thread, with date and author. -/
  replies : ∀ id created author,
    (∃ r, t.reply? id = some r ∧ r.created = created ∧ r.author = author) ↔
      ∃ m : Message, g.messages[id]? = some m ∧ m.thread = some k ∧ m.created = created ∧
        m.author = author
  top : ∀ id, id ∈ t.top ↔
    (∃ r, t.reply? id = some r ∧ r.parent = .root) ∨ ∃ gh, t.ghost? id = some gh
  children : ∀ (q : MessageId) (slot : Slot), t.nodes[q]? = some slot → ∀ id,
    id ∈ slot.children ↔ ∃ r, t.reply? id = some r ∧ r.parent = .node q
  parents : ∀ id r q, t.reply? id = some r → r.parent = .node q → q ∈ t.nodes
  /-- Ghosts stand for messages that are missed, and are dated by the earliest that misses them. -/
  ghosts : ∀ q gh, t.ghost? q = some gh → g.messages[q]? = none ∧
    (∀ c ∈ gh.children, ∃ m : Message, g.messages[c]? = some m ∧ m.parent = some q ∧
      gh.estimated ≤ m.created) ∧
    ∃ c ∈ gh.children, ∃ m : Message, g.messages[c]? = some m ∧ m.created = gh.estimated

namespace Coherent

/-- A stored reply has a slot and hangs there where it belongs. -/
theorem reply?_of_stored (h : g.Coherent) (ht : g.threads[k]? = some t)
    (hm : g.messages[id]? = some m) (hk : m.thread = some k) :
    ∃ r, t.reply? id = some r ∧ r.parent = g.placement m k := by
  obtain ⟨r, hr, hparent⟩ := h.planted.reply? ht (replyIn?_eq_some.2 ⟨hm, hk⟩)
  exact ⟨r, hr, hparent.trans (home_of_reply hm hk)⟩

theorem exists_reply? (h : g.Coherent) (hm : g.messages[id]? = some m) (hk : m.thread = some k) :
    ∃ t r, g.threads[k]? = some t ∧ t.reply? id = some r ∧ r.parent = g.placement m k := by
  obtain ⟨t, ht⟩ := h.planted.tree_of id m hm
  rw [hk, Option.getD_some] at ht
  obtain ⟨r, hr⟩ := h.reply?_of_stored ht hm hk
  exact ⟨t, r, ht, hr⟩

/-- What has a slot as a reply is stored. -/
theorem stored_of_reply? (h : g.Coherent) (ht : g.threads[k]? = some t)
    (hr : t.reply? id = some r) : ∃ m : Message, g.messages[id]? = some m ∧ m.thread = some k ∧
      m.created = r.created ∧ m.author = r.author ∧ r.parent = g.placement m k := by
  have hbare := h.planted.bare k t ht id
  rw [ThreadTree.bare?_eq_map, hr, Option.map_some] at hbare
  obtain ⟨m, hm, he⟩ := Option.map_eq_some_iff.1 hbare.symm
  obtain ⟨hm, hk⟩ := replyIn?_eq_some.1 hm
  rw [home_of_reply hm hk] at he
  cases r
  cases he
  exact ⟨m, hm, hk, rfl, rfl, rfl⟩

/-- A child of a ghost is a stored reply that names it. -/
theorem child_of_ghost (h : g.Coherent) (ht : g.threads[k]? = some t) {gh : Ghost}
    (hq : t.nodes[p]? = some (.ghost gh)) (hc : c ∈ gh.children) :
    ∃ r m, t.reply? c = some r ∧ g.messages[c]? = some m ∧ m.thread = some k ∧
      m.created = r.created ∧ m.parent = some p ∧
      ∀ x, g.messages[p]? = some x → x.thread = some k := by
  obtain ⟨r, hr, hparent⟩ := ThreadTree.linkOf?_eq_some_iff.1
    (((h.planted.knit k t ht).mem_children p _ hq c).1 hc).2
  obtain ⟨m, hm, hk, hcreated, -, hplace⟩ := h.stored_of_reply? ht hr
  have hhome : g.home c = .node p := (home_of_reply hm hk).trans (hplace.symm.trans hparent)
  obtain ⟨hnames, -, hforeign⟩ := parent_of_home_eq_node hm hk hhome
  exact ⟨r, m, hr, hm, hk, hcreated, hnames, hforeign⟩

/-- Ghosts stand for messages that are missed, and are dated by the earliest that misses them. -/
theorem missed_of_ghost? (h : g.Coherent) (ht : g.threads[k]? = some t) {gh : Ghost}
    (hq : t.ghost? p = some gh) : g.messages[p]? = none ∧
      (∀ c ∈ gh.children, ∃ m : Message, g.messages[c]? = some m ∧ m.parent = some p ∧
        gh.estimated ≤ m.created) ∧
      ∃ c ∈ gh.children, ∃ m : Message, g.messages[c]? = some m ∧ m.created = gh.estimated := by
  have hslot := ThreadTree.ghost?_eq_some_iff.1 hq
  obtain ⟨⟨c, hc, hdate⟩, hearliest⟩ := (h.planted.knit k t ht).dated p gh hslot
  obtain ⟨r, m, hr, hm, -, hcreated, -, hforeign⟩ := h.child_of_ghost ht hslot hc
  refine ⟨?_, fun c hc => ?_, c, hc, m, hm, ?_⟩
  · by_contra hstored
    obtain ⟨x, hx⟩ := Option.ne_none_iff_exists'.1 hstored
    obtain ⟨r', hr', -⟩ := h.reply?_of_stored ht hx (hforeign x hx)
    rw [ThreadTree.reply?_eq_some hr'] at hslot
    cases hslot
  · obtain ⟨r, m, hr, hm, -, hcreated, hnames, -⟩ := h.child_of_ghost ht hslot hc
    refine ⟨m, hm, hnames, ?_⟩
    rw [hcreated]
    exact hearliest c hc _ (ThreadTree.dateOf?_eq_some_iff.2 ⟨r, hr, rfl⟩)
  · obtain ⟨r', hr', hdate⟩ := ThreadTree.dateOf?_eq_some_iff.1 hdate
    rw [hr] at hr'
    cases hr'
    exact hcreated.trans hdate

theorem depicts (h : g.Coherent) (ht : g.threads[k]? = some t) : g.Depicts k t := by
  have hknit := h.planted.knit k t ht
  have hdeleted : k ∈ g.deletedRoots ↔ t.root = .deleted := by
    rw [h.planted.deleted k]
    simp [ht]
  refine ⟨h.planted.stored k t ht, hdeleted.symm, fun hroot => ?_, fun id created author => ?_,
    fun id => ?_, fun q slot hq id => ?_, fun id r q hr hparent => ?_,
    fun q gh hq => h.missed_of_ghost? ht hq⟩
  · obtain ⟨-, id, m, hm⟩ := h.rootless_of_mem (hdeleted.2 hroot)
    obtain ⟨hm, hk⟩ := replyIn?_eq_some.1 hm
    obtain ⟨r, hr, -⟩ := h.reply?_of_stored ht hm hk
    exact ⟨id, r, hr⟩
  · constructor
    · rintro ⟨r, hr, rfl, rfl⟩
      obtain ⟨m, hm, hk, hcreated, hauthor, -⟩ := h.stored_of_reply? ht hr
      exact ⟨m, hm, hk, hcreated, hauthor⟩
    · rintro ⟨m, hm, hk, rfl, rfl⟩
      obtain ⟨r, hr, -⟩ := h.reply?_of_stored ht hm hk
      obtain ⟨m', hm', -, hcreated, hauthor, -⟩ := h.stored_of_reply? ht hr
      rw [hm] at hm'
      cases hm'
      exact ⟨r, hr, hcreated.symm, hauthor.symm⟩
  · rw [hknit.mem_top, ThreadTree.linkOf?_eq_some_iff]
    simp [ThreadTree.ghost?_eq_some_iff]
  · rw [hknit.mem_children q slot hq, ThreadTree.linkOf?_eq_some_iff]
    simp
  · obtain ⟨slot, hslot⟩ := hknit.parent_mem id q (Set.notMem_empty id)
      (ThreadTree.linkOf?_eq_some_iff.2 ⟨r, hr, hparent⟩)
    simp [Std.ExtTreeMap.mem_iff_isSome_getElem?, hslot]

end Coherent

/-- Where a reply hangs under another member, that member has a slot with the reply among its
children, a ghost if the other member is not stored. -/
theorem Coherent.exists_slot (h : g.Coherent) (ht : g.threads[k]? = some t)
    (hr : t.reply? id = some r) (hp : r.parent = .node p) :
    ∃ slot, t.nodes[p]? = some slot ∧ id ∈ slot.children ∧
      (slot.isGhost ↔ g.messages[p]? = none) := by
  have hdepicts := h.depicts ht
  obtain ⟨slot, hslot⟩ := Option.isSome_iff_exists.1
    (Std.ExtTreeMap.mem_iff_isSome_getElem?.1 (hdepicts.parents id r p hr hp))
  refine ⟨slot, hslot, (hdepicts.children p slot hslot id).2 ⟨r, hr, hp⟩, ?_⟩
  cases slot with
  | ghost gh =>
    have hnone := (hdepicts.ghosts p gh (ThreadTree.ghost?_eq_some_iff.2 hslot)).1
    exact iff_of_true rfl hnone
  | reply rp =>
    have hrp : t.reply? p = some rp := by simp [ThreadTree.reply?, hslot, Slot.reply?]
    obtain ⟨x, hx, -⟩ := h.stored_of_reply? ht hrp
    simp [Slot.isGhost, hx]

/-! ## Places -/

/-- Where the rules place the reply `m` of thread `t` among the messages `ms`. -/
inductive Belongs (ms : IdMap Message) (t : MessageId) (m : Message) : Link → Prop
  | no_parent : m.parent = none → Belongs ms t m .root
  | root : m.parent = some t → Belongs ms t m .root
  | missing {p : MessageId} : m.parent = some p → p ≠ t → ms[p]? = none → Belongs ms t m (.node p)
  | foreign {p : MessageId} {x : Message} : m.parent = some p → p ≠ t → ms[p]? = some x →
      x.thread ≠ some t → Belongs ms t m .root
  | cut : Cuts ms t m.id → Belongs ms t m .root
  | parent {p : MessageId} {x : Message} : m.parent = some p → p ≠ t → ms[p]? = some x →
      x.thread = some t → ¬ Cuts ms t m.id → Belongs ms t m (.node p)

/-- A reply that cuts a loop names a parent of its own thread. -/
theorem Cuts.parent (h : Cuts g.messages k m.id) (hm : g.messages[m.id]? = some m) :
    ∃ p x, m.parent = some p ∧ p ≠ k ∧ g.messages[p]? = some x ∧ x.thread = some k := by
  obtain ⟨p, ⟨hp, ⟨y, hy, -, hparent⟩, x, hx, hxk⟩, -⟩ := Relation.TransGen.head'_iff.1 h.1.1
  rw [hm] at hy
  cases hy
  exact ⟨p, x, hparent, hp, hx, hxk⟩

/-- Placement follows the rules, which leave no choice. -/
theorem placement_eq_iff (hk : Keyed g.messages) (hm : g.messages[m.id]? = some m)
    (ht : m.thread = some k) : g.placement m k = l ↔ Belongs g.messages k m l := by
  have hcut := breaker?_self_iff hk hm ht
  constructor
  · rintro rfl
    rw [placement]
    cases hparent : m.parent with
    | none => exact .no_parent hparent
    | some p =>
      dsimp only
      split
      · next hp => exact .root (hp ▸ hparent)
      · next hp =>
        split
        · next hx => exact .missing hparent hp hx
        · next x hx =>
          split
          · next hthread => exact .foreign hparent hp hx hthread
          · next hthread =>
            split
            · next hb => exact .cut (hcut.1 hb)
            · next hb => exact .parent hparent hp hx (not_not.1 hthread) fun hc => hb (hcut.2 hc)
  · rintro (hparent | hparent | ⟨hparent, hp, hx⟩ | ⟨hparent, hp, hx, hthread⟩ | hc |
      ⟨hparent, hp, hx, hthread, hc⟩)
    · simp [placement, hparent]
    · simp [placement, hparent]
    · simp [placement, hparent, hp, hx]
    · simp [placement, hparent, hp, hx, hthread]
    · obtain ⟨p, x, hparent, hp, hx, hthread⟩ := hc.parent hm
      simp [placement, hparent, hp, hx, hthread, hcut.2 hc]
    · simp [placement, hparent, hp, hx, hthread, mt hcut.1 hc]

namespace Coherent

/-- Each loop of named parents loses one link: one reply on it hangs under the root, and all others
under the parents that they name. -/
theorem exists_cut (h : g.Coherent) {a : MessageId} (ha : SameLoop g.messages k a a) :
    ∃ t b, g.threads[k]? = some t ∧ SameLoop g.messages k a b ∧ t.above? b = some .root ∧
      ∀ c, SameLoop g.messages k a c → c ≠ b →
        ∃ p, Names g.messages k c p ∧ t.above? c = some (.node p) := by
  obtain ⟨b, ⟨hab, hcuts⟩, hunique⟩ := exists_unique_cuts h.keyed ha
  obtain ⟨m, hm, hk, -⟩ := hab.symm.stored
  obtain rfl := h.keyed b m hm
  obtain ⟨t, r, ht, hr, hparent⟩ := h.exists_reply? hm hk
  refine ⟨t, m.id, ht, hab, ?_, fun c hac hne => ?_⟩
  · rw [ThreadTree.above?_of_reply? hr, hparent, (placement_eq_iff h.keyed hm hk).2 (.cut hcuts)]
  · obtain ⟨p, hcp, -⟩ := Relation.TransGen.head'_iff.1 hac.symm.1
    obtain ⟨hp, ⟨y, hy, hyk, hparent⟩, x, hx, hxk⟩ := id hcp
    obtain rfl := h.keyed c y hy
    obtain ⟨r', hr', hplace⟩ := h.reply?_of_stored ht hy hyk
    have hnode := (placement_eq_iff h.keyed hy hyk).2
      (.parent hparent hp hx hxk fun hc => hne (hunique _ ⟨hac, hc⟩))
    exact ⟨p, hcp, by rw [ThreadTree.above?_of_reply? hr', hplace, hnode]⟩

/-- Climbing from any member of a tree comes to the root. -/
theorem reachesRoot (h : g.Coherent) (ht : g.threads[k]? = some t) (hid : id ∈ t.nodes) :
    t.ReachesRoot id := by
  induction id using (wellFounded_hangs h.keyed k).induction with
  | _ id ih =>
    obtain ⟨slot, hslot⟩ := Option.isSome_iff_exists.1 (Std.ExtTreeMap.mem_iff_isSome_getElem?.1 hid)
    cases slot with
    | ghost gh => exact .top (by rw [ThreadTree.above?, hslot, Option.map_some])
    | reply r =>
      have hr : t.reply? id = some r := by simp [ThreadTree.reply?, hslot, Slot.reply?]
      have habove := ThreadTree.above?_of_reply? hr
      obtain ⟨m, hm, hk, -, -, hplace⟩ := h.stored_of_reply? ht hr
      cases hparent : r.parent with
      | root => exact .top (hparent ▸ habove)
      | node p =>
        refine .under (hparent ▸ habove) ?_
        have hp := (h.depicts ht).parents id r p hr hparent
        obtain ⟨pslot, hpslot⟩ :=
          Option.isSome_iff_exists.1 (Std.ExtTreeMap.mem_iff_isSome_getElem?.1 hp)
        cases pslot with
        | ghost gh => exact .top (by rw [ThreadTree.above?, hpslot, Option.map_some])
        | reply rp =>
          have hrp : t.reply? p = some rp := by simp [ThreadTree.reply?, hpslot, Slot.reply?]
          obtain ⟨x, hx, hxk, -⟩ := h.stored_of_reply? ht hrp
          obtain rfl := h.keyed id m hm
          obtain ⟨hnames, hne, hcut⟩ :=
            (placement_eq_node_iff h.keyed hm hk).1 (hplace.symm.trans hparent)
          exact ih p ⟨⟨hne, ⟨m, hm, hk, hnames⟩, x, hx, hxk⟩, (hcut x hx).2⟩ hp

end Coherent

/-! ## After any run -/

/-- In every run each stored reply hangs where the rules place it, each loop of named parents loses
one link, and climbing from any member of a tree comes to its root. -/
theorem run_places (name : BoardName) {ops : List Op} (hops : ∀ op ∈ ops, op.Admissible) :
    (∀ (id : MessageId) (m : Message) (k : MessageId),
      (run name ops).messages[id]? = some m → m.thread = some k →
      ∃ t r, (run name ops).threads[k]? = some t ∧ t.reply? id = some r ∧
        (∀ l, r.parent = l ↔ Belongs (run name ops).messages k m l) ∧
        ∀ p, r.parent = .node p → ∃ slot, t.nodes[p]? = some slot ∧ id ∈ slot.children ∧
          (slot.isGhost ↔ (run name ops).messages[p]? = none)) ∧
    (∀ k a, SameLoop (run name ops).messages k a a →
      ∃ t b, (run name ops).threads[k]? = some t ∧ SameLoop (run name ops).messages k a b ∧
        t.above? b = some .root ∧
        ∀ c, SameLoop (run name ops).messages k a c → c ≠ b →
          ∃ p, Names (run name ops).messages k c p ∧ t.above? c = some (.node p)) ∧
    ∀ (k : MessageId) (t : ThreadTree) (id : MessageId),
      (run name ops).threads[k]? = some t → id ∈ t.nodes → t.ReachesRoot id := by
  obtain ⟨h, -⟩ := coherent_run name hops
  refine ⟨fun id m k hm hk => ?_, fun k a ha => h.exists_cut ha,
    fun k t id ht hid => h.reachesRoot ht hid⟩
  obtain rfl := h.keyed id m hm
  obtain ⟨t, r, ht, hr, hparent⟩ := h.exists_reply? hm hk
  refine ⟨t, r, ht, hr, fun l => ?_, fun p hp => h.exists_slot ht hr hp⟩
  rw [hparent, placement_eq_iff h.keyed hm hk]

theorem ring_places : (∀ op ∈ Ring.ops, op.Admissible) ∧
    ∃ t r, (run Ring.board Ring.ops).threads[Ring.root.id]? = some t ∧
      t.reply? Ring.first.id = some r ∧
      ∀ l, r.parent = l ↔
        Belongs (run Ring.board Ring.ops).messages Ring.root.id Ring.first l := by
  have hops : ∀ op ∈ Ring.ops, op.Admissible := by decide
  obtain ⟨t, r, ht, hr, hplace, -⟩ := (run_places Ring.board hops).1 Ring.first.id Ring.first
    Ring.root.id (by decide +kernel) rfl
  exact ⟨hops, t, r, ht, hr, hplace⟩

/-- In every run there is a tree for each thread of a stored message and no other, and each tree shows
the messages of its thread. -/
theorem run_depicts (name : BoardName) {ops : List Op} (hops : ∀ op ∈ ops, op.Admissible) :
    (∀ k, k ∈ (run name ops).threads ↔ (run name ops).Starts k ∨
      ∃ (id : MessageId) (m : Message),
        (run name ops).messages[id]? = some m ∧ m.thread = some k) ∧
    (∀ k ∈ (run name ops).deletedRoots, k ∈ (run name ops).threads) ∧
    ∀ (k : MessageId) (t : ThreadTree), (run name ops).threads[k]? = some t →
      (run name ops).Depicts k t := by
  obtain ⟨h, -⟩ := coherent_run name hops
  refine ⟨fun k => ?_, fun k hk => ?_, fun k t ht => h.depicts ht⟩
  · rw [h.mem_threads]
    constructor
    · rintro ⟨id, m, hm, rfl⟩
      cases ht : m.thread with
      | none => exact .inl ⟨m, hm, ht⟩
      | some k => exact .inr ⟨id, m, hm, ht⟩
    · rintro (⟨m, hm, ht⟩ | ⟨id, m, hm, ht⟩)
      · exact ⟨k, m, hm, by simp [ht]⟩
      · exact ⟨id, m, hm, by simp [ht]⟩
  · obtain ⟨t, ht, -⟩ := (h.planted.deleted k).1 hk
    simp [Std.ExtTreeMap.mem_iff_isSome_getElem?, ht]

theorem ring_depicts : (∀ op ∈ Ring.ops, op.Admissible) ∧
    ∃ t, (run Ring.board Ring.ops).threads[Ring.root.id]? = some t ∧
      (run Ring.board Ring.ops).Depicts Ring.root.id t := by
  have hops : ∀ op ∈ Ring.ops, op.Admissible := by decide
  obtain ⟨-, hdeleted, hdepicts⟩ := run_depicts Ring.board hops
  have hk := hdeleted Ring.root.id (by decide +kernel)
  obtain ⟨t, ht⟩ := Option.isSome_iff_exists.1 (Std.ExtTreeMap.mem_iff_isSome_getElem?.1 hk)
  exact ⟨hops, t, ht, hdepicts _ t ht⟩

end Board

end Noticeboard
