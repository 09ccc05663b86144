import Noticeboard.Board.Basic
import Noticeboard.Proofs.Relation

/-!
# Loops of named parents

Inside one thread every reply names at most one parent, so `Names` is a partial function on ids and
a loop is a cycle of that function. `Cuts` says declaratively which member of a loop hangs under the
root: the first of all members by date and then by id.

`cuts_erase` says how the departure of one message changes who cuts a loop, and
`breaker?_eq_some_iff` ties the search of `Board.loop?` and `Board.breaker?` to these relations.
-/

namespace Noticeboard

open Relation

/-! ## The earliest message -/

namespace Message

/-- `a` comes no later than `b`, by date and then by id. -/
def Precedes (a b : Message) : Prop :=
  a.created < b.created ∨ a.created = b.created ∧ (compare a.id b.id).isLE = true

/-- The order by which `Board.earlier` picks a message. -/
abbrev order : Message → Message → Ordering := compareLex (compareOn created) (compareOn id)

theorem order_isLE_iff {a b : Message} : (order a b).isLE = true ↔ a.Precedes b := by
  rw [order, compareLex, Ordering.isLE_then_iff_or, compareOn, compareOn, Std.compare_eq_lt,
    Std.LawfulEqOrd.compare_eq_iff_eq, Precedes]

theorem Precedes.refl (a : Message) : a.Precedes a := order_isLE_iff.1 Std.ReflCmp.isLE_rfl

theorem Precedes.trans {a b c : Message} (hab : a.Precedes b) (hbc : b.Precedes c) : a.Precedes c :=
  order_isLE_iff.1 (Std.TransCmp.isLE_trans (order_isLE_iff.2 hab) (order_isLE_iff.2 hbc))

theorem Precedes.id_eq {a b : Message} (hab : a.Precedes b) (hba : b.Precedes a) : a.id = b.id := by
  have h : order a b = .eq :=
    Std.OrientedCmp.isLE_antisymm (order_isLE_iff.2 hab) (order_isLE_iff.2 hba)
  exact Std.LawfulEqOrd.eq_of_compare (compareLex_eq_eq.1 h).2

end Message

namespace Board

/-- The earlier of two messages comes no later than either. -/
theorem earlier_precedes (a b : Message) :
    (earlier a b).Precedes a ∧ (earlier a b).Precedes b := by
  rw [earlier]
  split
  · next h => exact ⟨Message.order_isLE_iff.1 (Ordering.isLE_of_eq_lt (Ordering.isLT_iff_eq_lt.1 h)), .refl b⟩
  · next h =>
    have hswap : Message.order a b = (Message.order b a).swap := Std.OrientedCmp.eq_swap
    refine ⟨.refl a, Message.order_isLE_iff.1 ?_⟩
    rw [hswap]
    cases ho : Message.order b a <;> simp_all

theorem earlier_eq_or (a b : Message) : earlier a b = a ∨ earlier a b = b := by
  unfold earlier
  split
  · exact .inr rfl
  · exact .inl rfl

/-- Folding with `earlier` picks a message that comes no later than any other. -/
theorem foldl_earlier (rest : List Message) (first : Message) :
    rest.foldl earlier first ∈ first :: rest ∧
      ∀ m ∈ first :: rest, (rest.foldl earlier first).Precedes m := by
  induction rest generalizing first with
  | nil => simp [Message.Precedes.refl]
  | cons m rest ih =>
    obtain ⟨hmem, hall⟩ := ih (earlier first m)
    obtain ⟨hfirst, hm⟩ := earlier_precedes first m
    have hbest := hall _ List.mem_cons_self
    rw [List.foldl_cons]
    refine ⟨?_, fun x hx => ?_⟩
    · rcases List.mem_cons.1 hmem with h | h
      · rw [h]
        rcases earlier_eq_or first m with h | h <;> simp [h]
      · simp [h]
    · rcases List.mem_cons.1 hx with rfl | hx
      · exact hbest.trans hfirst
      · rcases List.mem_cons.1 hx with rfl | hx
        · exact hbest.trans hm
        · exact hall x (List.mem_cons_of_mem _ hx)

/-! ## Naming a parent inside a thread -/

/-- In thread `t`, the stored reply `a` names the stored reply `b` as its parent. -/
def Names (ms : IdMap Message) (t a b : MessageId) : Prop :=
  b ≠ t ∧ (∃ m, ms[a]? = some m ∧ m.thread = some t ∧ m.parent = some b) ∧
    ∃ p, ms[b]? = some p ∧ p.thread = some t

/-- Two replies of thread `t` lie on one loop of named parents. -/
def SameLoop (ms : IdMap Message) (t a b : MessageId) : Prop :=
  TransGen (Names ms t) a b ∧ TransGen (Names ms t) b a

/-- The reply `a` lies on a loop of named parents in thread `t` and comes before all others on it. -/
def Cuts (ms : IdMap Message) (t a : MessageId) : Prop :=
  SameLoop ms t a a ∧
    ∀ m, ms[a]? = some m → ∀ b x, SameLoop ms t a b → ms[b]? = some x → m.Precedes x

/-- Messages are stored under their own ids. -/
def Keyed (ms : IdMap Message) : Prop :=
  ∀ (id : MessageId) (m : Message), ms[id]? = some m → m.id = id

section Keyed

variable {ms : IdMap Message}

theorem Keyed.erase (h : Keyed ms) (id : MessageId) : Keyed (ms.erase id) := by
  intro q m hm
  rw [Std.ExtTreeMap.getElem?_erase] at hm
  split at hm
  · cases hm
  · exact h q m hm

theorem Keyed.insert (h : Keyed ms) (m : Message) : Keyed (ms.insert m.id m) := by
  intro q x hx
  rw [Std.ExtTreeMap.getElem?_insert] at hx
  split at hx
  · next he =>
    cases hx
    exact Std.LawfulEqOrd.eq_of_compare he
  · exact h q x hx

end Keyed

section Names

variable {ms : IdMap Message} {t a b c : MessageId}

theorem names_rightUnique (ms : IdMap Message) (t : MessageId) : Relator.RightUnique (Names ms t) := by
  rintro a b c ⟨-, ⟨m, hm, -, hb⟩, -⟩ ⟨-, ⟨m', hm', -, hc⟩, -⟩
  rw [hm] at hm'
  cases hm'
  rw [hb] at hc
  exact Option.some.inj hc

theorem SameLoop.symm (h : SameLoop ms t a b) : SameLoop ms t b a := ⟨h.2, h.1⟩

theorem SameLoop.trans (h : SameLoop ms t a b) (h' : SameLoop ms t b c) : SameLoop ms t a c :=
  ⟨h.1.trans h'.1, h'.2.trans h.2⟩

/-- From a reply on a loop, what is reached is the loop. -/
theorem sameLoop_of_transGen (ha : SameLoop ms t a a) (hb : TransGen (Names ms t) a b) :
    SameLoop ms t a b :=
  ⟨hb, transGen_back (names_rightUnique ms t) ha.1 hb⟩

theorem SameLoop.stored (h : SameLoop ms t a b) :
    ∃ m, ms[a]? = some m ∧ m.thread = some t ∧ m.parent.isSome := by
  obtain ⟨c, ⟨-, ⟨m, hm, ht, hp⟩, -⟩, -⟩ := TransGen.head'_iff.1 h.1
  exact ⟨m, hm, ht, by simp [hp]⟩

/-- A loop has one first message. -/
theorem Cuts.unique (hk : Keyed ms) (ha : Cuts ms t a) (hb : Cuts ms t b) (h : SameLoop ms t a b) :
    a = b := by
  obtain ⟨m, hm, -⟩ := h.stored
  obtain ⟨x, hx, -⟩ := h.symm.stored
  rw [← hk a m hm, ← hk b x hx]
  exact (ha.2 m hm b x h hx).id_eq (hb.2 x hx a m h.symm hm)

end Names

/-! ## One message less -/

section Erase

variable {ms : IdMap Message} {t k a b : MessageId}

theorem names_erase : Names (ms.erase k) t a b ↔ Names ms t a b ∧ a ≠ k ∧ b ≠ k := by
  simp only [Names, Std.ExtTreeMap.getElem?_erase, Std.LawfulEqOrd.compare_eq_iff_eq]
  grind

theorem transGen_names_erase (h : TransGen (Names (ms.erase k) t) a b) :
    TransGen (Names ms t) a b :=
  TransGen.mono (fun _ _ h => (names_erase.1 h).1) _ _ h

/-- A stretch of a loop that avoids a message survives its departure. -/
theorem transGen_erase_of_sameLoop {c : MessageId} (hk : ¬ SameLoop ms t c k)
    (hab : TransGen (Names ms t) a b) (ha : SameLoop ms t c a) (hb : SameLoop ms t c b) :
    TransGen (Names (ms.erase k) t) a b := by
  have hne {d : MessageId} (hd : SameLoop ms t c d) : d ≠ k := by
    rintro rfl
    exact hk hd
  induction hab with
  | single h => exact .single (names_erase.2 ⟨h, hne ha, hne hb⟩)
  | tail had hdb ih =>
    have hd := ha.trans (sameLoop_of_transGen (ha.symm.trans ha) had)
    exact (ih hd).tail (names_erase.2 ⟨hdb, hne hd, hne hb⟩)

/-- Loops that avoid a message survive its departure. -/
theorem sameLoop_erase (h : ¬ SameLoop ms t a k) :
    SameLoop (ms.erase k) t a b ↔ SameLoop ms t a b := by
  constructor
  · exact fun hab => ⟨transGen_names_erase hab.1, transGen_names_erase hab.2⟩
  · intro hab
    have ha := hab.trans hab.symm
    exact ⟨transGen_erase_of_sameLoop h hab.1 ha hab, transGen_erase_of_sameLoop h hab.2 hab ha⟩

/-- A loop through a message does not survive its departure. -/
theorem not_sameLoop_erase (h : SameLoop ms t a k) : ¬ SameLoop (ms.erase k) t a a := by
  intro ha
  have hk := transGen_of_le_of_cycle (names_rightUnique ms t)
    (fun _ _ h => (names_erase.1 h).1) ha.1 h.1
  obtain ⟨c, -, hck⟩ := TransGen.tail'_iff.1 hk
  exact (names_erase.1 hck).2.2 rfl

/-- Which replies cut a loop after the departure of a message: those that did before, except on a
loop through the message. -/
theorem cuts_erase : Cuts (ms.erase k) t a ↔ Cuts ms t a ∧ ¬ SameLoop ms t a k := by
  by_cases h : SameLoop ms t a k
  · exact ⟨fun hc => absurd hc.1 (not_sameLoop_erase h), fun hc => absurd h hc.2⟩
  · have hne {b : MessageId} (hb : SameLoop ms t a b) : b ≠ k := by
      rintro rfl
      exact h hb
    simp only [Cuts, sameLoop_erase h, h, not_false_iff, and_true]
    refine and_congr_right fun ha => ?_
    constructor
    all_goals
      intro hc m hm b x hb hx
      refine hc m ?_ b x hb ?_
    all_goals
      simp_all [Std.ExtTreeMap.getElem?_erase, (hne ha).symm, (hne hb).symm]

end Erase

/-! ## The search for a loop -/

/-- The messages met when named parents are followed from `next` back to `start` inside thread `t`. -/
inductive Way (ms : IdMap Message) (t start : MessageId) : Option MessageId → List Message → Prop
  | back : start ≠ t → Way ms t start (some start) []
  | step {p : MessageId} {m : Message} {rest : List Message} : p ≠ t → p ≠ start →
      ms[p]? = some m → m.thread = some t → Way ms t start m.parent rest →
      Way ms t start (some p) (m :: rest)

section Way

variable {ms ms' : IdMap Message} {t start p : MessageId} {next : Option MessageId}
  {l l' : List Message}

/-- A way does not look up the message it comes back to. -/
theorem Way.mono (h : Way ms t start next l)
    (hms : ∀ q m, q ≠ start → ms[q]? = some m → ms'[q]? = some m) : Way ms' t start next l := by
  induction h with
  | back ht => exact .back ht
  | step ht hs hm hthread _ ih => exact .step ht hs (hms _ _ hs hm) hthread ih

theorem Way.unique (h : Way ms t start next l) (h' : Way ms t start next l') : l = l' := by
  induction h generalizing l' with
  | back _ =>
    cases h' with
    | back _ => rfl
    | step _ hs _ _ _ => exact absurd rfl hs
  | step _ hs hm _ _ ih =>
    cases h' with
    | back _ => exact absurd rfl hs
    | step _ _ hm' _ hrest =>
      rw [hm] at hm'
      cases hm'
      rw [ih hrest]

/-- A way passes a message or does without it. -/
theorem Way.erase_or (h : Way ms t start next l) (p : MessageId) :
    Way (ms.erase p) t start next l ∨
      ∃ l', l'.length ≤ l.length ∧ Way ms t start (some p) l' := by
  induction h with
  | back ht => exact .inl (.back ht)
  | @step q m rest ht hs hm hthread hrest ih =>
    by_cases hq : q = p
    · subst hq
      exact .inr ⟨_, Nat.le_refl _, .step ht hs hm hthread hrest⟩
    · rcases ih with ih | ⟨l', hl, hway⟩
      · refine .inl (.step ht hs ?_ hthread ih)
        simp [Std.ExtTreeMap.getElem?_erase, hm, Ne.symm hq]
      · exact .inr ⟨l', Nat.le_succ_of_le hl, hway⟩

/-- A way meets no message twice. -/
theorem Way.erase_head {m : Message} (h : Way ms t start (some p) (m :: l)) :
    Way (ms.erase p) t start m.parent l := by
  cases h with
  | step ht hs hm hthread hrest =>
    rcases hrest.erase_or p with hway | ⟨l', hl, hway⟩
    · exact hway
    · rw [hway.unique (.step ht hs hm hthread hrest), List.length_cons] at hl
      omega

theorem way_of_wayBack? {unseen : IdMap Message} (h : wayBack? t start unseen next = some l) :
    Way unseen t start next l := by
  fun_induction wayBack? t start unseen next generalizing l with
  | case1 => cases h
  | case2 => cases h
  | case3 unseen ht =>
    cases h
    exact .back ht
  | case4 unseen p ht hs hp hthread ih =>
    obtain ⟨rest, hrest, rfl⟩ := Option.map_eq_some_iff.1 h
    refine .step ht hs (Std.ExtTreeMap.getElem?_eq_some_getElem hp) hthread ((ih hrest).mono ?_)
    intro q m _ hq
    rw [Std.ExtTreeMap.getElem?_erase] at hq
    split at hq
    · cases hq
    · exact hq
  | case5 => cases h
  | case6 => cases h

theorem wayBack?_of_way (h : Way ms t start next l) : wayBack? t start ms next = some l := by
  induction l generalizing ms next with
  | nil =>
    cases h with
    | back ht => simp [wayBack?, ht]
  | cons m rest ih =>
    cases next with
    | none => cases h
    | some p =>
      have hrest := ih h.erase_head
      cases h with
      | step ht hs hm hthread _ =>
        have hp : p ∈ ms := by simp [Std.ExtTreeMap.mem_iff_isSome_getElem?, hm]
        have hget : ms[p] = m := by
          rw [Std.ExtTreeMap.getElem?_eq_some_getElem hp] at hm
          exact Option.some.inj hm
        rw [wayBack?]
        simp [ht, hs, hp, hget, hthread, hrest]

/-- The search finds the way back, whenever there is one. -/
theorem wayBack?_eq_some_iff : wayBack? t start ms next = some l ↔ Way ms t start next l :=
  ⟨way_of_wayBack?, wayBack?_of_way⟩

/-- A way leads along named parents, and all that it meets is stored. -/
theorem Way.reaches (hk : Keyed ms) {m : Message} (hstart : ms[start]? = some m)
    (ht : m.thread = some t) (h : Way ms t start next l) {a : MessageId} {x : Message}
    (ha : ms[a]? = some x) (hx : x.thread = some t) (hnext : x.parent = next) :
    TransGen (Names ms t) a start ∧
      ∀ y ∈ l, ms[y.id]? = some y ∧ TransGen (Names ms t) a y.id := by
  induction h generalizing a x with
  | back hne =>
    exact ⟨.single ⟨hne, ⟨x, ha, hx, hnext⟩, ⟨m, hstart, ht⟩⟩, fun _ hy => absurd hy List.not_mem_nil⟩
  | @step p y rest hpt _ hy hthread _ ih =>
    have hap : Names ms t a p := ⟨hpt, ⟨x, ha, hx, hnext⟩, ⟨y, hy, hthread⟩⟩
    obtain ⟨hback, hmet⟩ := ih hy hthread rfl
    refine ⟨.head hap hback, fun z hz => ?_⟩
    rcases List.mem_cons.1 hz with rfl | hz
    · rw [hk p z hy]
      exact ⟨hy, .single hap⟩
    · exact ⟨(hmet z hz).1, .head hap (hmet z hz).2⟩

/-- A way leaves out nothing: what it meets names its start or something else that it meets. -/
theorem Way.closed (hk : Keyed ms) (h : Way ms t start next l) :
    (∀ c, next = some c → c = start ∨ ∃ y ∈ l, y.id = c) ∧
      ∀ y ∈ l, ∀ c, Names ms t y.id c → c = start ∨ ∃ z ∈ l, z.id = c := by
  induction h with
  | back _ => exact ⟨fun c hc => .inl (Option.some.inj hc).symm, fun _ hy => absurd hy List.not_mem_nil⟩
  | @step p y rest _ _ hy _ _ ih =>
    obtain ⟨hfirst, hrest⟩ := ih
    have hp := hk p y hy
    refine ⟨fun c hc => .inr ⟨y, List.mem_cons_self, hp.trans (Option.some.inj hc)⟩, fun z hz c hzc => ?_⟩
    have hnext : c = start ∨ ∃ z ∈ rest, z.id = c := by
      rcases List.mem_cons.1 hz with rfl | hz
      · obtain ⟨-, ⟨m, hm, -, hc⟩, -⟩ := hzc
        rw [hp, hy] at hm
        cases hm
        exact hfirst c hc
      · exact hrest z hz c hzc
    exact hnext.imp_right fun ⟨z, hz, hc⟩ => ⟨z, List.mem_cons_of_mem _ hz, hc⟩

/-- All that the start of a way reaches is met on the way. -/
theorem Way.covers (hk : Keyed ms) {m : Message} (hstart : ms[start]? = some m)
    (h : Way ms t start m.parent l) {c : MessageId} (hc : TransGen (Names ms t) start c) :
    c = start ∨ ∃ y ∈ l, y.id = c := by
  obtain ⟨hfirst, hrest⟩ := h.closed hk
  have hstep {d : MessageId} (hd : Names ms t start d) : d = start ∨ ∃ y ∈ l, y.id = d := by
    obtain ⟨-, ⟨x, hx, -, hparent⟩, -⟩ := hd
    rw [hstart] at hx
    cases hx
    exact hfirst d hparent
  induction hc with
  | single hd => exact hstep hd
  | tail _ hd ih =>
    rcases ih with rfl | ⟨y, hy, rfl⟩
    · exact hstep hd
    · exact hrest y hy _ hd

/-- Where named parents lead back, there is a way. -/
theorem exists_way (h : ReflTransGen (Names ms t) p start) (hp : p ≠ t) :
    ∃ l, Way ms t start (some p) l := by
  induction h using ReflTransGen.head_induction_on with
  | refl => exact ⟨[], .back hp⟩
  | @head p q hpq _ ih =>
    obtain ⟨hq, ⟨m, hm, ht, hparent⟩, -⟩ := hpq
    by_cases hs : p = start
    · subst hs
      exact ⟨[], .back hp⟩
    · obtain ⟨l, hl⟩ := ih hq
      exact ⟨m :: l, .step hp hs hm ht (hparent ▸ hl)⟩

end Way

section Breaker

variable {g : Board} {m : Message} {t b : MessageId}

/-- The search from a message sees the board as if the message were stored. -/
theorem loop?_eq_some_iff (ht : m.thread = some t) {l : List Message} :
    g.loop? m = some l ↔
      ∃ rest, l = m :: rest ∧ Way (g.messages.insert m.id m) t m.id m.parent rest := by
  have hway {rest : List Message} :
      Way g.messages t m.id m.parent rest ↔ Way (g.messages.insert m.id m) t m.id m.parent rest := by
    constructor
    all_goals
      refine fun h => h.mono fun q x hq hx => ?_
      simpa [Std.ExtTreeMap.getElem?_insert, hq.symm] using hx
  simp only [loop?, ht, Option.bind_some, Option.map_eq_some_iff, wayBack?_eq_some_iff, hway]
  grind

/-- The messages that the search finds are those on the loop. -/
theorem mem_loop? (hk : Keyed (g.messages.insert m.id m)) (ht : m.thread = some t)
    {l : List Message} (h : g.loop? m = some l) {c : MessageId} {x : Message}
    (hc : (g.messages.insert m.id m)[c]? = some x) :
    x ∈ l ↔ SameLoop (g.messages.insert m.id m) t m.id c := by
  obtain ⟨rest, rfl, hway⟩ := (loop?_eq_some_iff ht).1 h
  have hm : (g.messages.insert m.id m)[m.id]? = some m := Std.ExtTreeMap.getElem?_insert_self
  obtain ⟨hback, hmet⟩ := hway.reaches hk hm ht hm ht rfl
  have hself : SameLoop (g.messages.insert m.id m) t m.id m.id := ⟨hback, hback⟩
  have hx := hk c x hc
  constructor
  · intro hmem
    rcases List.mem_cons.1 hmem with rfl | hmem
    · exact hx ▸ hself
    · exact hx ▸ sameLoop_of_transGen hself (hmet x hmem).2
  · intro hc'
    rcases hway.covers hk hm hc'.1 with rfl | ⟨y, hy, rfl⟩
    · rw [hm] at hc
      cases hc
      exact List.mem_cons_self
    · rw [(hmet y hy).1] at hc
      cases hc
      exact List.mem_cons_of_mem _ hy

/-- The search finds a loop if there is one. -/
theorem isSome_loop? (ht : m.thread = some t) (h : SameLoop (g.messages.insert m.id m) t m.id m.id) :
    ∃ l, g.loop? m = some l := by
  obtain ⟨p, ⟨hp, ⟨x, hx, -, hparent⟩, -⟩, hback⟩ := TransGen.head'_iff.1 h.1
  rw [Std.ExtTreeMap.getElem?_insert_self] at hx
  cases hx
  obtain ⟨rest, hway⟩ := exists_way hback hp
  exact ⟨m :: rest, (loop?_eq_some_iff ht).2 ⟨rest, rfl, hparent ▸ hway⟩⟩

theorem exists_of_breaker?_eq_some (h : g.breaker? m = some b) :
    ∃ l, g.loop? m = some l ∧ ∃ x ∈ l, x.id = b ∧ ∀ y ∈ l, x.Precedes y := by
  obtain ⟨l, hl, hb⟩ := Option.bind_eq_some_iff.1 h
  cases l with
  | nil => cases hb
  | cons first rest =>
    obtain ⟨hmem, hall⟩ := foldl_earlier rest first
    exact ⟨_, hl, _, hmem, Option.some.inj hb, hall⟩

theorem isSome_breaker? {l : List Message} (h : g.loop? m = some l) : ∃ b, g.breaker? m = some b := by
  cases l with
  | nil =>
    obtain ⟨t, _, hl⟩ := Option.bind_eq_some_iff.1 h
    obtain ⟨_, _, hl⟩ := Option.map_eq_some_iff.1 hl
    cases hl
  | cons first rest => exact ⟨(rest.foldl earlier first).id, by simp [breaker?, h]⟩

theorem sameLoop_breaker? (hk : Keyed (g.messages.insert m.id m)) (ht : m.thread = some t)
    (h : g.breaker? m = some b) :
    SameLoop (g.messages.insert m.id m) t m.id b ∧ Cuts (g.messages.insert m.id m) t b := by
  obtain ⟨l, hl, x, hx, rfl, hall⟩ := exists_of_breaker?_eq_some h
  obtain ⟨rest, rfl, hway⟩ := (loop?_eq_some_iff ht).1 hl
  have hm : (g.messages.insert m.id m)[m.id]? = some m := Std.ExtTreeMap.getElem?_insert_self
  have hstored : (g.messages.insert m.id m)[x.id]? = some x := by
    rcases List.mem_cons.1 hx with rfl | hx
    · exact hm
    · exact ((hway.reaches hk hm ht hm ht rfl).2 x hx).1
  have hsame := (mem_loop? hk ht hl hstored).1 hx
  refine ⟨hsame, hsame.symm.trans hsame, fun y hy c z hc hz => ?_⟩
  rw [hstored] at hy
  cases hy
  exact hall z ((mem_loop? hk ht hl hz).2 (hsame.trans hc))

/-- The breaker of a loop is the message that cuts it. -/
theorem breaker?_eq_some_iff (hk : Keyed (g.messages.insert m.id m)) (ht : m.thread = some t) :
    g.breaker? m = some b ↔
      SameLoop (g.messages.insert m.id m) t m.id b ∧ Cuts (g.messages.insert m.id m) t b := by
  refine ⟨sameLoop_breaker? hk ht, fun ⟨hsame, hcuts⟩ => ?_⟩
  obtain ⟨l, hl⟩ := isSome_loop? ht (hsame.trans hsame.symm)
  obtain ⟨b', hb'⟩ := isSome_breaker? hl
  obtain ⟨hsame', hcuts'⟩ := sameLoop_breaker? hk ht hb'
  rw [hb', hcuts'.unique hk hcuts (hsame'.symm.trans hsame)]

end Breaker

end Board

end Noticeboard
