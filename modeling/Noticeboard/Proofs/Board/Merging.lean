import Mathlib.Data.List.Pairwise
import Noticeboard.Proofs.Board.Ghosts
import Noticeboard.Proofs.Board.View

/-!
# Entries merge, and never split

Two messages stand `Together` when one entry holds both. In a thread whose root is known that is so
whenever both are filed there. In a thread of unknown root the entries are the connected components
of the named parents (`Coherent.together_iff`): climbing from two replies ends at the same head
exactly if named parents connect them, wherever loops are cut (`tops_congr`).

Arrivals only add named parents and roots. So they merge entries and split none, and the latest date
in the entry of a message never goes back (`run_merging`).
-/

namespace Noticeboard

open Relation

/-- The latest date among the messages of an entry. -/
def ThreadEntry.latest? (e : ThreadEntry) : Option Timestamp := (e.messages.map (·.created)).max?

namespace Board

/-! ## Climbing to a head -/

section Tops

variable {ms : IdMap Message} {t a b head x y : MessageId}

theorem hangs_rightUnique (ms : IdMap Message) (t : MessageId) : Relator.RightUnique (Hangs ms t) :=
  fun _ _ _ h h' => names_rightUnique ms t h.1 h'.1

theorem Cuts.not_hangs (h : Cuts ms t a) : ¬ Hangs ms t a b := fun hab => hab.2 h

/-- What named parents lead to a cut climbs to it: no other cut lies on the way. -/
theorem Cuts.climb (hcut : Cuts ms t a) (hk : Keyed ms) (h : ReflTransGen (Names ms t) b a) :
    ReflTransGen (Hangs ms t) b a := by
  induction h using ReflTransGen.head_induction_on with
  | refl => exact .refl
  | @head b c hbc hca ih =>
    by_cases hb : Cuts ms t b
    · have hloop := sameLoop_of_transGen hb.1 (TransGen.head' hbc hca)
      rw [hb.unique hk hcut hloop]
    · exact .head ⟨hbc, hb⟩ ih

/-- Climbing from `a` ends at `head`. -/
def Tops (ms : IdMap Message) (t a head : MessageId) : Prop :=
  ReflTransGen (Hangs ms t) a head ∧ ∀ b, ¬ Hangs ms t head b

theorem Tops.unique (h : Tops ms t a x) (h' : Tops ms t a y) : x = y := by
  rcases ReflTransGen.total_of_right_unique (hangs_rightUnique ms t) h.1 h'.1 with hxy | hyx
  · rcases hxy.cases_head with rfl | ⟨b, hb, -⟩
    · rfl
    · exact absurd hb (h.2 b)
  · rcases hyx.cases_head with rfl | ⟨b, hb, -⟩
    · rfl
    · exact absurd hb (h'.2 b)

theorem Tops.of_climb (h : Tops ms t b head) (hab : ReflTransGen (Hangs ms t) a b) :
    Tops ms t a head :=
  ⟨hab.trans h.1, h.2⟩

theorem tops_hangs (hab : Hangs ms t a b) : Tops ms t a head ↔ Tops ms t b head := by
  refine ⟨fun h => ?_, fun h => h.of_climb (.single hab)⟩
  rcases h.1.cases_head with rfl | ⟨c, hac, hc⟩
  · exact absurd hab (h.2 b)
  · obtain rfl := hangs_rightUnique ms t hab hac
    exact ⟨hc, h.2⟩

/-- A reply and the parent it names climb to the same head, also where the reply cuts a loop: the
parent climbs around the loop. -/
theorem tops_names (hk : Keyed ms) (hab : Names ms t a b) : Tops ms t a head ↔ Tops ms t b head := by
  by_cases ha : Cuts ms t a
  · obtain ⟨c, hac, hca⟩ := TransGen.head'_iff.1 ha.1.1
    obtain rfl := names_rightUnique ms t hab hac
    have hclimb : ReflTransGen (Hangs ms t) b a := ha.climb hk hca
    refine ⟨fun h => h.of_climb hclimb, fun h => ?_⟩
    obtain rfl := h.unique (Tops.of_climb ⟨.refl, fun _ => ha.not_hangs⟩ hclimb)
    exact ⟨.refl, h.2⟩
  · exact tops_hangs ⟨hab, ha⟩

/-- What named parents connect climbs to the same head. -/
theorem tops_congr (hk : Keyed ms) (h : EqvGen (Names ms t) a b) :
    Tops ms t a head ↔ Tops ms t b head := by
  induction h with
  | rel a b hab => exact tops_names hk hab
  | refl => exact Iff.rfl
  | symm a b _ ih => exact ih.symm
  | trans a b c _ _ ihab ihbc => exact ihab.trans ihbc

theorem Tops.connected (ha : Tops ms t a head) (hb : Tops ms t b head) :
    EqvGen (Names ms t) a b := by
  have hle : Hangs ms t ≤ Names ms t := fun _ _ h => h.1
  have hclimb {c : MessageId} (hc : Tops ms t c head) : EqvGen (Names ms t) c head :=
    EqvGen.reflTransGen_le_eqvGen _ _ _ (ReflTransGen.mono hle _ _ hc.1)
  exact (hclimb ha).trans _ _ _ ((hclimb hb).symm _ _)

end Tops

/-! ## Entries as components -/

variable {g g' : Board} {m m' x : Message} {k id head : MessageId} {t : ThreadTree} {r : Reply}
  {e : ThreadEntry}

namespace Coherent

/-- Among stored replies, hanging under a member is naming it without cutting a loop. -/
theorem hangsUnder_iff (h : g.Coherent) (ht : g.threads[k]? = some t) {p : MessageId}
    (hp : t.reply? p = some r) : t.HangsUnder id p ↔ Hangs g.messages k id p := by
  obtain ⟨x, hx, hxk, -⟩ := h.stored_of_reply? ht hp
  constructor
  · intro hid
    obtain ⟨r', hr', hparent⟩ := ThreadTree.linkOf?_eq_some_iff.1 hid
    obtain ⟨m, hm, hk, -, -, hplace⟩ := h.stored_of_reply? ht hr'
    obtain rfl := h.keyed id m hm
    obtain ⟨hnames, hne, hcut⟩ :=
      (placement_eq_node_iff h.keyed hm hk).1 (hplace.symm.trans hparent)
    exact ⟨⟨hne, ⟨m, hm, hk, hnames⟩, x, hx, hxk⟩, (hcut x hx).2⟩
  · rintro ⟨⟨hne, ⟨m, hm, hk, hnames⟩, -⟩, hcut⟩
    obtain rfl := h.keyed id m hm
    obtain ⟨r', hr', hplace⟩ := h.reply?_of_stored ht hm hk
    have hnode : g.placement m k = .node p := by
      refine (placement_eq_node_iff h.keyed hm hk).2 ⟨hnames, hne, fun y hy => ⟨?_, hcut⟩⟩
      obtain rfl := Option.some.inj (hx.symm.trans hy)
      exact hxk
    exact (ThreadTree.hangsUnder_of_reply? hr').2 (hplace.trans hnode)

theorem climb_iff (h : g.Coherent) (ht : g.threads[k]? = some t) (hhead : t.reply? head = some r) :
    ReflTransGen t.HangsUnder id head ↔ ReflTransGen (Hangs g.messages k) id head := by
  constructor
  · intro hclimb
    induction hclimb using ReflTransGen.head_induction_on with
    | refl => exact .refl
    | @head a b hab hb ih =>
      rcases hb.cases_head with rfl | ⟨c, hbc, -⟩
      · exact .single ((h.hangsUnder_iff ht hhead).1 hab)
      · obtain ⟨rb, hrb, -⟩ := ThreadTree.linkOf?_eq_some_iff.1 hbc
        exact .head ((h.hangsUnder_iff ht hrb).1 hab) ih
  · intro hclimb
    induction hclimb using ReflTransGen.head_induction_on with
    | refl => exact .refl
    | @head a b hab _ ih =>
      obtain ⟨-, -, x, hx, hxk⟩ := hab.1
      obtain ⟨rb, hrb, -⟩ := h.reply?_of_stored ht hx hxk
      exact .head ((h.hangsUnder_iff ht hrb).2 hab) ih

/-- A stored reply heads an entry if it hangs under no stored reply. -/
theorem mem_heads_iff (h : g.Coherent) (ht : g.threads[k]? = some t)
    (hhead : t.reply? head = some r) :
    head ∈ t.heads ↔ ∀ p, ¬ Hangs g.messages k head p := by
  constructor
  · intro hmem p hp
    obtain ⟨-, -, x, hx, hxk⟩ := hp.1
    obtain ⟨rp, hrp, -⟩ := h.reply?_of_stored ht hx hxk
    exact ThreadTree.not_transGen_of_mem_heads hmem hrp (.single ((h.hangsUnder_iff ht hrp).2 hp))
  · intro hnone
    refine ThreadTree.mem_heads.2 ⟨r, hhead, ?_⟩
    rw [ThreadTree.headsEntry]
    cases hparent : r.parent with
    | root => rfl
    | node p =>
      obtain ⟨_ | gh, hslot, -⟩ := h.exists_slot ht hhead hparent
      · next rp =>
        have hrp : t.reply? p = some rp := by rw [ThreadTree.reply?, hslot]; rfl
        have hhangs := (ThreadTree.hangsUnder_of_reply? hhead).2 hparent
        exact absurd ((h.hangsUnder_iff ht hrp).1 hhangs) (hnone p)
      · simp [ThreadTree.ghost?_eq_some_iff.2 hslot]

/-- The groups of a tree gather what climbs to the same head. -/
theorem mem_group_iff (h : g.Coherent) (ht : g.threads[k]? = some t)
    (hhead : t.reply? head = some r) :
    (head ∈ t.heads ∧ id ∈ t.group head) ↔ Tops g.messages k id head := by
  rw [ThreadTree.mem_group (h.planted.knit k t ht) (h.acyclic ht), h.climb_iff ht hhead,
    h.mem_heads_iff ht hhead, Tops, and_comm]

end Coherent

/-- One entry holds both messages. -/
def Together (g : Board) (m m' : Message) : Prop :=
  ∃ e ∈ g.entries, m ∈ e.messages ∧ m' ∈ e.messages

instance (g : Board) (m m' : Message) : Decidable (g.Together m m') :=
  inferInstanceAs (Decidable (∃ e ∈ g.entries, _))

namespace Coherent

/-- What an entry of a tree holds is stored and filed there. -/
theorem filed_of_mem (h : g.Coherent) (ht : t ∈ g.trees) (he : e ∈ g.treeEntries t)
    (hm : m ∈ e.messages) : g.messages[m.id]? = some m ∧ treeKey m = t.id := by
  have htree := h.mem_trees.1 ht
  have hpick : m ∈ g.pick t.listed := by
    rw [← h.messages_treeEntries htree]
    exact List.mem_flatMap.2 ⟨e, he, hm⟩
  obtain ⟨hlisted, hstored⟩ := (mem_pick h.keyed).1 hpick
  obtain ⟨x, hx, hkey⟩ := (h.mem_listed htree).1 hlisted
  obtain rfl := Option.some.inj (hstored.symm.trans hx)
  exact ⟨hstored, hkey⟩

/-- The entries of a thread of unknown root are those of the heads. -/
theorem mem_orphan_iff (h : g.Coherent) (ht : g.threads[k]? = some t)
    (he : g.orphanEntry? t head = some e) (hr : t.reply? head = some r)
    (hm : g.messages[m.id]? = some m) :
    (head ∈ t.heads ∧ m ∈ e.messages) ↔ Tops g.messages k m.id head := by
  rw [messages_orphanEntry he, mem_pick h.keyed, and_iff_left hm, h.mem_group_iff ht hr]

/-- Two messages stand together if they are filed in one thread, and its root is known or named
parents connect them. -/
theorem together_iff (h : g.Coherent) : g.Together m m' ↔
    g.messages[m.id]? = some m ∧ g.messages[m'.id]? = some m' ∧ treeKey m = treeKey m' ∧
      (¬ g.Starts (treeKey m) → treeKey m ∉ g.deletedRoots →
        EqvGen (Names g.messages (treeKey m)) m.id m'.id) := by
  constructor
  · rintro ⟨e, he, hm, hm'⟩
    obtain ⟨t, htree, he⟩ := List.mem_flatMap.1 he
    have ht := h.mem_trees.1 htree
    obtain ⟨hstored, hkey⟩ := h.filed_of_mem htree he hm
    obtain ⟨hstored', hkey'⟩ := h.filed_of_mem htree he hm'
    refine ⟨hstored, hstored', hkey.trans hkey'.symm, fun hstarts hdeleted => ?_⟩
    rw [hkey] at hstarts hdeleted ⊢
    have hunknown := (h.root_unknown_iff ht).2 ⟨hstarts, hdeleted⟩
    rcases mem_treeEntries.1 he with ⟨hroot, -⟩ | ⟨-, head, r, hr, hhead, horphan⟩
    · exact absurd hunknown hroot
    · have hheads := ThreadTree.mem_heads.2 ⟨r, hr, hhead⟩
      have htops := (h.mem_orphan_iff ht horphan hr hstored).1 ⟨hheads, hm⟩
      have htops' := (h.mem_orphan_iff ht horphan hr hstored').1 ⟨hheads, hm'⟩
      exact htops.connected htops'
  · rintro ⟨hstored, hstored', hkey, hconnected⟩
    obtain ⟨e, he, hm⟩ := List.mem_flatMap.1 ((h.entries_partition.2 m).2 hstored)
    obtain ⟨t, htree, hetree⟩ := List.mem_flatMap.1 he
    have ht := h.mem_trees.1 htree
    have htkey := (h.filed_of_mem htree hetree hm).2
    refine ⟨e, he, hm, ?_⟩
    rcases mem_treeEntries.1 hetree with ⟨hroot, rfl⟩ | ⟨hroot, head, r, hr, hhead, horphan⟩
    · have hlisted : m'.id ∈ t.listed :=
        (h.mem_listed ht).2 ⟨m', hstored', hkey.symm.trans htkey⟩
      rw [messages_wholeEntry_of_known g hroot]
      exact (mem_pick h.keyed).2 ⟨hlisted, hstored'⟩
    · obtain ⟨hstarts, hdeleted⟩ := (h.root_unknown_iff ht).1 hroot
      have hheads := ThreadTree.mem_heads.2 ⟨r, hr, hhead⟩
      have htops := (h.mem_orphan_iff ht horphan hr hstored).1 ⟨hheads, hm⟩
      rw [htkey] at hconnected
      have htops' := (tops_congr h.keyed (hconnected hstarts hdeleted)).1 htops
      exact ((h.mem_orphan_iff ht horphan hr hstored').2 htops').2

/-! ## Arrivals -/

/-- An arrival splits no entry. -/
theorem together_ingested (h : g.Coherent) (hself : x.namesItself = false)
    (htogether : g.Together m m') : (g.ingested x).Together m m' := by
  obtain ⟨hm, hm', hkey, hconnected⟩ := h.together_iff.1 htogether
  refine (h.ingested hself).together_iff.2
    ⟨messages_of_ingested hm, messages_of_ingested hm', hkey, fun hstarts hdeleted => ?_⟩
  have hstarts' : ¬ g.Starts (treeKey m) := by
    rintro ⟨y, hy, hthread⟩
    exact hstarts ⟨y, messages_of_ingested hy, hthread⟩
  have hdeleted' : treeKey m ∉ g.deletedRoots := fun hk =>
    hdeleted ((h.mem_deletedRoots_ingested hself).2 ⟨hk, hstarts⟩)
  have hle : Names g.messages (treeKey m) ≤ Names (g.ingested x).messages (treeKey m) := by
    rintro a b ⟨hne, ⟨y, hy, hreply⟩, ⟨p, hp, hthread⟩⟩
    exact ⟨hne, ⟨y, messages_of_ingested hy, hreply⟩, ⟨p, messages_of_ingested hp, hthread⟩⟩
  exact EqvGen.mono hle _ _ (hconnected hstarts' hdeleted')

theorem together_foldl_ingested {l : List Message} (h : g.Coherent)
    (hself : ∀ x ∈ l, x.namesItself = false) (htogether : g.Together m m') :
    (l.foldl Board.ingested g).Coherent ∧ (l.foldl Board.ingested g).Together m m' := by
  induction l generalizing g with
  | nil => exact ⟨h, htogether⟩
  | cons x l ih =>
    obtain ⟨hx, hself⟩ := List.forall_mem_cons.1 hself
    exact ih (h.ingested hx) hself (h.together_ingested hx htogether)

/-- Every stored message is in one entry. -/
theorem existsUnique_entry (h : g.Coherent) (hm : g.messages[m.id]? = some m) :
    ∃! e, e ∈ g.entries ∧ m ∈ e.messages := by
  obtain ⟨e, he, hme⟩ := List.mem_flatMap.1 ((h.entries_partition.2 m).2 hm)
  refine ⟨e, ⟨he, hme⟩, fun e' ⟨he', hme'⟩ => ?_⟩
  by_contra hne
  have : Std.Symm fun e e' : ThreadEntry => e.messages.Disjoint e'.messages :=
    ⟨fun _ _ hdisjoint => hdisjoint.symm⟩
  exact h.pairwise_entries.forall he' he hne hme' hme

end Coherent

/-- One entry holds the message, and its latest date is `d`. -/
def LatestWith (g : Board) (m : Message) (d : Timestamp) : Prop :=
  ∃ e, (∀ e', (e' ∈ g.entries ∧ m ∈ e'.messages) ↔ e' = e) ∧ e.latest? = some d

theorem Coherent.exists_latestWith (h : g.Coherent) (hm : g.messages[m.id]? = some m) :
    ∃ d, g.LatestWith m d := by
  obtain ⟨e, ⟨he, hme⟩, hunique⟩ := h.existsUnique_entry hm
  have hdates : e.messages.map (·.created) ≠ [] :=
    mt List.map_eq_nil_iff.1 (List.ne_nil_of_mem hme)
  obtain ⟨d, hd⟩ := Option.isSome_iff_exists.1 (List.isSome_max?_of_ne_nil hdates)
  refine ⟨d, e, fun e' => ⟨hunique e', ?_⟩, hd⟩
  rintro rfl
  exact ⟨he, hme⟩

/-- Where entries only merge, the latest date beside a message does not go back. -/
theorem LatestWith.le {d d' : Timestamp} (hd : g.LatestWith m d) (hd' : g'.LatestWith m d')
    (hmerge : ∀ x, g.Together m x → g'.Together m x) : d ≤ d' := by
  obtain ⟨e, he, hdate⟩ := hd
  obtain ⟨e', he', hdate'⟩ := hd'
  obtain ⟨hentry, hm⟩ := (he e).2 rfl
  obtain ⟨hmem, -⟩ := List.max?_eq_some_iff.1 hdate
  obtain ⟨x, hx, rfl⟩ := List.mem_map.1 hmem
  obtain ⟨e'', hentry', hm', hx'⟩ := hmerge x ⟨e, hentry, hm, hx⟩
  obtain rfl := (he' e'').1 ⟨hentry', hm'⟩
  exact (List.max?_eq_some_iff.1 hdate').2 _ (List.mem_map_of_mem hx')

/-- Whatever arrives after a run, messages of one entry stay in one entry, and the latest date in
the entry of a message never goes back. -/
theorem run_merging (name : BoardName) {ops : List Op} (hops : ∀ op ∈ ops, op.Admissible)
    {arrivals : List Message} (hself : ∀ m ∈ arrivals, m.namesItself = false) :
    let g := run name ops
    let g' := arrivals.foldl ingested g
    (∀ m m', g.Together m m' → g'.Together m m') ∧
      ∀ m, g.messages[m.id]? = some m →
        ∃ d d', g.LatestWith m d ∧ g'.LatestWith m d' ∧ d ≤ d' := by
  intro g g'
  have hg : g.Coherent := (coherent_run name hops).1
  have hmerge (m m' : Message) (h : g.Together m m') : g'.Coherent ∧ g'.Together m m' :=
    hg.together_foldl_ingested hself h
  refine ⟨fun m m' h => (hmerge m m' h).2, fun m hm => ?_⟩
  have halone : g.Together m m := hg.together_iff.2 ⟨hm, hm, rfl, fun _ _ => .refl _⟩
  obtain ⟨hg', halone'⟩ := hmerge m m halone
  obtain ⟨d, hd⟩ := hg.exists_latestWith hm
  obtain ⟨d', hd'⟩ := hg'.exists_latestWith (hg'.together_iff.1 halone').1
  exact ⟨d, d', hd, hd', hd.le hd' fun x hx => (hmerge m x hx).2⟩

/-- A reply to the first of the ring. -/
def Ring.third : Message := .newReply (messageId 3) root.id first.id "" 6 {board}

/-- The second of the ring closes a loop with the first. The first is cut off from the parent it
hung under, the second comes below it, and the reply to it stays. -/
theorem ring_merging :
    let ops : List Op := [.ingest Ring.third, .ingest Ring.first]
    let g := run Ring.board ops
    let g' := g.ingested Ring.second
    (∀ op ∈ ops, op.Admissible) ∧ Ring.second.namesItself = false ∧
      g.entries.map (·.messages) = [[Ring.first, Ring.third]] ∧
      g'.entries.map (·.messages) = [[Ring.first, Ring.second, Ring.third]] ∧
      g'.Together Ring.first Ring.third ∧
      ∃ d d', g.LatestWith Ring.first d ∧ g'.LatestWith Ring.first d' ∧ d ≤ d' := by
  intro ops g g'
  have hops : ∀ op ∈ ops, op.Admissible := by decide
  have hself : ∀ m ∈ [Ring.second], m.namesItself = false := by decide +kernel
  obtain ⟨hmerge, hlatest⟩ := run_merging Ring.board hops hself
  have hbefore : g.Together Ring.first Ring.third := by decide +kernel
  exact ⟨hops, by decide +kernel, by decide +kernel, by decide +kernel, hmerge _ _ hbefore,
    hlatest Ring.first (by decide +kernel)⟩

end Board

end Noticeboard
