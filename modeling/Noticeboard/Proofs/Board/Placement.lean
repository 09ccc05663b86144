import Noticeboard.Proofs.Board.Loop

/-!
# Where replies belong

`Board.home` is the link that `Board.placement` gives to a stored reply. Placement looks at the
stored messages alone, and the departure of a message moves only the replies that name it and the
reply that cut a loop through it (`placement_erase`). Read backwards, the same statement covers an
arrival.

On every loop of named parents exactly one reply belongs under the root (`exists_unique_cuts`), so
that climbing from the other replies to the parents they name comes to an end (`wellFounded_hangs`).
-/

namespace Noticeboard

open Relation

namespace Board

/-- Where a stored reply belongs. -/
def home (g : Board) (id : MessageId) : Link :=
  ((g.messages[id]?).bind fun m => m.thread.map (g.placement m)).getD .root

section

variable {g g' : Board} {m : Message} {id t k p : MessageId}

theorem home_of_reply (hm : g.messages[id]? = some m) (ht : m.thread = some t) :
    g.home id = g.placement m t := by
  simp [home, hm, ht]

theorem placement_congr (h : g.messages = g'.messages) : g.placement = g'.placement := by
  cases g
  cases g'
  cases h
  rfl

theorem breaker?_congr (h : g.messages = g'.messages) : g.breaker? = g'.breaker? := by
  cases g
  cases g'
  cases h
  rfl

theorem home_congr (h : g.messages = g'.messages) : g.home = g'.home := by
  funext id
  rw [home, home, placement_congr h, h]

theorem insert_self {ms : IdMap Message} (hm : ms[id]? = some m) : ms.insert id m = ms := by
  refine Std.ExtTreeMap.ext_getElem? fun q => ?_
  rw [Std.ExtTreeMap.getElem?_insert]
  split
  · next h => rw [← Std.LawfulEqOrd.eq_of_compare h, hm]
  · rfl

/-- A stored reply breaks its loop if it comes first on it. -/
theorem breaker?_stored_iff (hk : Keyed g.messages) (hm : g.messages[m.id]? = some m)
    (ht : m.thread = some t) {b : MessageId} :
    g.breaker? m = some b ↔ SameLoop g.messages t m.id b ∧ Cuts g.messages t b := by
  have hself := insert_self hm
  have hiff := breaker?_eq_some_iff (b := b) (by rw [hself]; exact hk) ht
  rwa [hself] at hiff

theorem breaker?_self_iff (hk : Keyed g.messages) (hm : g.messages[m.id]? = some m)
    (ht : m.thread = some t) : g.breaker? m = some m.id ↔ Cuts g.messages t m.id := by
  rw [breaker?_stored_iff hk hm ht, and_iff_right_of_imp (·.1)]

/-- The departure of `k` moves only the replies that name it and the reply that cut a loop through
it; all others stay where they belong. -/
theorem placement_erase (hg : g'.messages = g.messages.erase k) (hk : Keyed g.messages)
    (hm : g.messages[m.id]? = some m) (hne : m.id ≠ k) (ht : m.thread = some t)
    (hp : m.parent ≠ some k) (hb : ¬ (SameLoop g.messages t m.id k ∧ Cuts g.messages t m.id)) :
    g'.placement m t = g.placement m t := by
  have hk' : Keyed g'.messages := hg ▸ hk.erase k
  have hm' : g'.messages[m.id]? = some m := by
    simp [hg, Std.ExtTreeMap.getElem?_erase, hm, hne.symm]
  have hbreaker : g'.breaker? m = some m.id ↔ g.breaker? m = some m.id := by
    rw [breaker?_self_iff hk' hm' ht, breaker?_self_iff hk hm ht, hg, cuts_erase]
    exact ⟨(·.1), fun h => ⟨h, fun hs => hb ⟨hs, h⟩⟩⟩
  rw [placement, placement]
  cases hparent : m.parent with
  | none => rfl
  | some p =>
    have hpk : k ≠ p := fun h => hp (by rw [hparent, h])
    have hget : g'.messages[p]? = g.messages[p]? := by
      simp [hg, Std.ExtTreeMap.getElem?_erase, hpk]
    simp only [hget, hbreaker]

/-- The departure of `m` in terms of its breaker. -/
theorem home_erase {x : Message} (hg : g'.messages = g.messages.erase m.id) (hk : Keyed g.messages)
    (hm : g.messages[m.id]? = some m) (hx : g.messages[id]? = some x) (ht : x.thread = some t)
    (hne : id ≠ m.id) (hp : x.parent ≠ some m.id) (hb : g.breaker? m ≠ some id) :
    g'.home id = g.home id := by
  obtain rfl := hk id x hx
  have hx' : g'.messages[x.id]? = some x := by
    simp [hg, Std.ExtTreeMap.getElem?_erase, hx, hne.symm]
  rw [home_of_reply hx' ht, home_of_reply hx ht]
  refine placement_erase hg hk hx hne ht hp fun ⟨hloop, hcuts⟩ => hb ?_
  obtain ⟨y, hy, hyt, -⟩ := hloop.symm.stored
  rw [hm] at hy
  cases hy
  exact (breaker?_stored_iff hk hm hyt).2 ⟨hloop.symm, hcuts⟩

/-- The search from a message does not look up the message itself. -/
theorem breaker?_insert (hg : g'.messages = g.messages.insert m.id m) :
    g'.breaker? m = g.breaker? m := by
  have hself : g'.messages.insert m.id m = g.messages.insert m.id m := by
    rw [insert_self (by simp [hg]), hg]
  have hloop : g'.loop? m = g.loop? m := by
    cases ht : m.thread with
    | none => simp [loop?, ht]
    | some t => exact Option.ext fun l => by rw [loop?_eq_some_iff ht, loop?_eq_some_iff ht, hself]
  rw [breaker?, breaker?, hloop]

/-- An arrival leaves all others where they belong, except for the replies that wait for it and the
reply that cuts a loop through it. -/
theorem home_insert {x : Message} (hg : g'.messages = g.messages.insert m.id m)
    (hk : Keyed g.messages) (hm : g.messages[m.id]? = none) (hx : g.messages[id]? = some x)
    (ht : x.thread = some t) (hp : x.parent ≠ some m.id) (hb : g.breaker? m ≠ some id) :
    g'.home id = g.home id := by
  have hne : id ≠ m.id := by
    rintro rfl
    rw [hm] at hx
    cases hx
  have hk' : Keyed g'.messages := hg ▸ hk.insert m
  have herase : g.messages = g'.messages.erase m.id := by
    refine Std.ExtTreeMap.ext_getElem? fun q => ?_
    simp only [hg, Std.ExtTreeMap.getElem?_erase, Std.ExtTreeMap.getElem?_insert,
      Std.LawfulEqOrd.compare_eq_iff_eq]
    grind
  have hx' : g'.messages[id]? = some x := by
    simp [hg, Std.ExtTreeMap.getElem?_insert, hx, hne.symm]
  exact (home_erase herase hk' (by simp [hg]) hx' ht hne hp (by rwa [breaker?_insert hg])).symm

/-- Where an arrival belongs is decided by the messages before it, unless it names itself. -/
theorem home_insert_self (hg : g'.messages = g.messages.insert m.id m)
    (hself : m.parent ≠ some m.id) :
    g'.home m.id = (m.thread.map (g.placement m)).getD .root := by
  have hm : g'.messages[m.id]? = some m := by simp [hg]
  simp only [home, hm, Option.bind_some]
  cases m.thread with
  | none => rfl
  | some t =>
    simp only [Option.map_some, Option.getD_some, placement, breaker?_insert hg]
    cases hp : m.parent with
    | none => rfl
    | some p =>
      have hne : m.id ≠ p := fun he => hself (by rw [hp, he])
      simp [hg, Std.ExtTreeMap.getElem?_insert, hne]

/-- What is placed under another message names it. A stored parent is in the same thread. -/
theorem parent_of_placement_eq_node (h : g.placement m t = .node p) :
    m.parent = some p ∧ p ≠ t ∧ ∀ x, g.messages[p]? = some x → x.thread = some t := by
  rw [placement] at h
  grind

theorem parent_of_home_eq_node (hm : g.messages[id]? = some m) (ht : m.thread = some t)
    (h : g.home id = .node p) :
    m.parent = some p ∧ p ≠ t ∧ ∀ x, g.messages[p]? = some x → x.thread = some t :=
  parent_of_placement_eq_node ((home_of_reply hm ht).symm.trans h)

/-! ## Links under replies -/

/-- When a reply belongs under the parent that it names. In all other cases it belongs under the
root. -/
theorem placement_eq_node_iff (hk : Keyed g.messages) (hm : g.messages[m.id]? = some m)
    (ht : m.thread = some t) :
    g.placement m t = .node p ↔ m.parent = some p ∧ p ≠ t ∧
      ∀ x, g.messages[p]? = some x → x.thread = some t ∧ ¬ Cuts g.messages t m.id := by
  have hb := breaker?_self_iff hk hm ht
  rw [placement]
  cases hparent : m.parent with
  | none => simp
  | some q =>
    by_cases hq : q = t
    · grind
    · cases hget : g.messages[q]? with
      | none => grind
      | some x => grind

/-- Every loop of named parents is cut, and at one place. -/
theorem exists_unique_cuts (hk : Keyed g.messages) {a : MessageId}
    (ha : SameLoop g.messages t a a) :
    ∃ b, (SameLoop g.messages t a b ∧ Cuts g.messages t b) ∧
      ∀ c, SameLoop g.messages t a c ∧ Cuts g.messages t c → c = b := by
  obtain ⟨m, hm, ht, -⟩ := ha.stored
  obtain rfl := hk a m hm
  obtain ⟨l, hl⟩ := isSome_loop? ht ((insert_self hm).symm ▸ ha)
  obtain ⟨b, hb⟩ := isSome_breaker? hl
  obtain ⟨hsame, hcuts⟩ := (breaker?_stored_iff hk hm ht).1 hb
  exact ⟨b, ⟨hsame, hcuts⟩, fun c hc => hc.2.unique hk hcuts (hc.1.symm.trans hsame)⟩

/-- Naming the parent, of replies that do not cut their loop. -/
def Hangs (ms : IdMap Message) (t a b : MessageId) : Prop := Names ms t a b ∧ ¬ Cuts ms t a

/-- No loop is left once each is cut. -/
theorem not_transGen_hangs (hk : Keyed g.messages) {a : MessageId} :
    ¬ TransGen (Hangs g.messages t) a a := by
  intro ha
  have hle : Hangs g.messages t ≤ Names g.messages t := fun _ _ h => h.1
  have hnames := names_rightUnique g.messages t
  have hloop : TransGen (Names g.messages t) a a := TransGen.mono hle _ _ ha
  obtain ⟨b, ⟨hab, hcuts⟩, -⟩ := exists_unique_cuts hk ⟨hloop, hloop⟩
  have hhangs : Relator.RightUnique (Hangs g.messages t) := fun _ _ _ h h' => hnames h.1 h'.1
  -- The cut itself lies on the loop, so it would have to hang under its parent too.
  have hback := transGen_back hhangs ha (transGen_of_le_of_cycle hnames hle ha hab.1)
  obtain ⟨c, hbc, -⟩ := TransGen.head'_iff.1 hback
  exact hbc.2 hcuts

/-- Climbing from reply to parent comes to an end. -/
theorem wellFounded_hangs (hk : Keyed g.messages) (t : MessageId) :
    WellFounded fun b a => Hangs g.messages t a b := by
  refine wellFounded_of_acyclic (l := g.messages.keys) (fun b a hab => ?_) fun a ha => ?_
  · obtain ⟨⟨-, -, x, hx, -⟩, -⟩ := hab
    simp [Std.ExtTreeMap.mem_iff_isSome_getElem?, hx]
  · exact not_transGen_hangs hk (transGen_swap.1 ha)

end

end Board

end Noticeboard
