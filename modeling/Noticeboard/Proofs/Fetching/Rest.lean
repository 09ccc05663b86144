import Noticeboard.Proofs.Fetching.Rounds
import Noticeboard.Proofs.Retry
import Noticeboard.Proofs.State.Missing
import Noticeboard.Proofs.State.Restart

/-!
# Fetching comes to rest

Rounds over a steady store come to an end (`Host.stages_come_to_rest`). `Engine.Fetched` says how far
they have come: of the messages that the store was asked for, those in its supply are stored, and each
of the others has a marker that holds it back while the clock stands still. So none of them is asked
for again (`Fetched.not_mem_of_mem_toFetch`). What arrives may ask for more, but for nothing that no
list announces and no message names, be it stored from the start or in the supply
(`Fetched.mem_nameable`), and these are finitely many.
-/

namespace Noticeboard

/-! ## Markers -/

theorem EngineConfig.isValid_of_check {c : EngineConfig} (h : c.check = .ok ()) :
    c.retry.isValid = true := by
  unfold check at h
  cases hvalid : c.retry.isValid with
  | true => rfl
  | false =>
    rw [hvalid] at h
    cases h

/-- The marker was made just now, and holds back the next attempt. -/
def Marker.Holds (m : Marker) (now : Timestamp) : Prop := m.lastAttempt = now ∧ now < m.nextRetry

namespace Markers

variable {ms : Markers} {c : RetryConfig} {subject : Subject} {now : Timestamp}

/-- Unless the clock is at its last moment, a failed fetch holds back the next attempt. -/
theorem exists_holds_fail (hc : c.isValid = true) (hnow : now < .last) (reason : FetchReason) :
    ∃ m, (ms.fail c subject reason now)[subject]? = some m ∧ m.Holds now := by
  rw [getElem?_fail_self]
  cases ms[subject]? with
  | none => exact ⟨_, rfl, rfl, Timestamp.lt_after hnow (RetryConfig.minDelay_pos hc)⟩
  | some m => exact ⟨_, rfl, rfl, Timestamp.lt_after hnow (RetryConfig.delayAfter_pos hc _)⟩

theorem getElem?_sweep_of_holds {m : Marker} (hm : ms[subject]? = some m) (hholds : m.Holds now) :
    (ms.sweep c now).1[subject]? = some m := by
  have hfresh : m.isStale now c.markerTtl = false := by
    have hsince : (now.since m.lastAttempt).toNat = 0 := by
      rw [Timestamp.toNat_since, hholds.1, Nat.sub_self]
    rw [Marker.isStale, decide_eq_false_iff_not, UInt64.lt_iff_toNat_lt]
    omega
  have hdue : m.isDue now = false := by
    rw [Marker.isDue, decide_eq_false_iff_not]
    exact UInt64.not_le.2 hholds.2
  rw [getElem?_sweep, hm, Option.filter_some, hfresh]
  simp [hdue]

theorem not_isRetryAllowed_of_holds {m : Marker} (hm : ms[subject]? = some m)
    (hholds : m.Holds now) : ms.isRetryAllowed subject now = false := by
  rw [← Bool.not_eq_true, isRetryAllowed_iff]
  intro hallowed
  exact UInt64.not_le.2 hholds.2 (hallowed m hm)

end Markers

/-! ## What rounds keep -/

namespace State

/-- The messages that can be stored while a supply lasts: those stored already, and the supply. -/
def supplied (s : State) (supply : IdMap Message) : List Message :=
  s.boards.values.flatMap (fun g => g.messages.values) ++ supply.values

/-- What there can be to fetch while a supply lasts: what lists announce, and what messages name. -/
def nameable (s : State) (supply : IdMap Message) : List MessageId :=
  s.lists.announced.keys ++
    (s.supplied supply).flatMap fun m => m.thread.toList ++ m.parent.toList

end State

namespace Engine

/-- How an engine stands to the one that rounds started from, when the store was asked for the
messages `seen`. -/
structure Fetched (start : Engine) (supply : IdMap Message) (seen : List MessageId) (e : Engine) :
    Prop where
  sound : e.state.Sound
  config : e.config = start.config
  now : e.now = start.now
  outbox : e.state.outbox = start.state.outbox
  deleted : e.state.deleted = start.state.deleted
  announced : e.state.lists.announced = start.state.lists.announced
  stored : ∀ (b : BoardName) (id : MessageId) (m : Message),
    (e.state.board b).messages[id]? = some m → m ∈ start.state.supplied supply
  arrived : ∀ x ∈ seen, x ∈ supply → e.state.isStored x = true
  /-- What cannot be had for now is held back for as long as the clock stands still. -/
  held : ∀ x ∈ seen, x ∉ supply →
    ∃ m, e.state.markers[Subject.message x]? = some m ∧ m.Holds e.now
  /-- Rounds hold nothing back that they did not ask for. -/
  free : ∀ x, x ∉ seen → start.state.markers.isRetryAllowed (.message x) start.now = true →
    e.state.markers.isRetryAllowed (.message x) e.now = true

namespace Fetched

variable {start e : Engine} {supply : IdMap Message} {seen : List MessageId} {m : Message}
  {id x : MessageId}

theorem refl (h : start.state.Sound) (supply : IdMap Message) :
    Fetched start supply [] start := by
  refine ⟨h, rfl, rfl, rfl, rfl, rfl, fun b id m hm => ?_, fun x hx => ?_, fun x hx => ?_,
    fun x _ hx => hx⟩
  · have hb := State.mem_boards_of_stored (mem_iff_getElem?.2 ⟨m, hm⟩)
    refine List.mem_append_left _ (List.mem_flatMap.2 ⟨_, mem_values.2 ⟨b, hb⟩, ?_⟩)
    exact mem_values.2 ⟨id, hm⟩
  · cases hx
  · cases hx

theorem sweep (h : Fetched start supply seen e) : Fetched start supply seen e.sweep.1 := by
  refine ⟨h.sound.congr (fun _ => rfl) rfl, h.config, h.now, h.outbox, h.deleted, h.announced,
    h.stored, h.arrived, fun x hx hsupply => ?_, fun x hx hallowed => ?_⟩
  · obtain ⟨m, hm, hholds⟩ := h.held x hx hsupply
    exact ⟨m, Markers.getElem?_sweep_of_holds hm hholds, hholds⟩
  · exact Markers.isRetryAllowed_sweep (h.free x hx hallowed)

/-- A message from the supply is stored on arrival. -/
theorem receive (h : Fetched start supply seen e) (hm : supply[m.id]? = some m)
    (hvalid : m.validate (some m.id.author) start.config.validation = .ok ())
    (hauthor : start.state.isDeleted m.id.author = false) :
    Fetched start supply (seen ++ [m.id]) (e.receive m (some m.id.author)).1 := by
  have hauthor' : e.state.isDeleted m.author = false := by
    rwa [State.isDeleted, h.deleted]
  have hvalid' : m.validate (some m.id.author) e.config.validation = .ok () := by
    rwa [h.config]
  obtain ⟨boards, heq, hboards⟩ := State.receive_of_valid h.sound.named hauthor' hvalid'
  have heq : (e.receive m (some m.id.author)).1.state = State.settle { e.state with boards } m.id :=
    heq
  have hstored (b : BoardName) (x : MessageId) :=
    State.mem_board_filed (x := x) (b := b) h.sound.named hboards
  refine ⟨h.sound.receive e.config.validation m (some m.id.author), h.config, h.now, ?_, ?_, ?_,
    fun b id x hx => ?_, fun x hx hsupply => ?_, fun x hx hsupply => ?_, fun x hx hallowed => ?_⟩
  · rw [heq]
    exact h.outbox
  · rw [heq]
    exact h.deleted
  · rw [heq]
    exact (ListIndex.announced_markDownloaded _ _).trans h.announced
  · rw [heq, State.board_filed h.sound.named hboards] at hx
    rcases Board.of_messages_ingested hx with hx | rfl
    · exact h.stored b id x hx
    · exact List.mem_append_right _ (mem_values.2 ⟨_, hm⟩)
  · rw [heq, State.isStored_iff]
    rcases List.mem_append.1 hx with hx | hx
    · obtain ⟨b, hb⟩ := State.isStored_iff.1 (h.arrived x hx hsupply)
      exact ⟨b, (hstored b x).2 (.inl hb)⟩
    · obtain ⟨b, hb⟩ := Message.exists_targets_of_validate hvalid
      exact ⟨b, (hstored b x).2 (.inr ⟨List.mem_singleton.1 hx, hb⟩)⟩
  · have hne : x ≠ m.id := by
      rintro rfl
      exact hsupply (mem_iff_getElem?.2 ⟨m, hm⟩)
    obtain ⟨marker, hmarker, hholds⟩ :=
      h.held x ((List.mem_append.1 hx).resolve_right (by simpa using hne)) hsupply
    refine ⟨marker, ?_, hholds⟩
    rw [heq]
    show (e.state.markers.erase (.message m.id))[Subject.message x]? = some marker
    rw [Std.ExtTreeMap.getElem?_erase, if_neg (by simpa using Ne.symm hne)]
    exact hmarker
  · rw [heq]
    have hseen : x ∉ seen := fun hmem => hx (List.mem_append_left _ hmem)
    exact Markers.isRetryAllowed_succeed (h.free x hseen hallowed)

/-- A failed fetch holds back the next one. -/
theorem fail (h : Fetched start supply seen e) (hconfig : start.config.retry.isValid = true)
    (hnow : start.now < .last) (hid : id ∉ supply) (reason : FetchReason) :
    Fetched start supply (seen ++ [id]) (e.fail (.message id) reason) := by
  have hother {x : MessageId} (hx : x ≠ id) : (e.fail (.message id) reason).state.markers[
      Subject.message x]? = e.state.markers[Subject.message x]? :=
    Markers.getElem?_fail_of_ne (by simpa using hx)
  refine ⟨h.sound.congr (fun _ => rfl) rfl, h.config, h.now, h.outbox, h.deleted, h.announced,
    h.stored, fun x hx hsupply => ?_, fun x hx hsupply => ?_, fun x hx hallowed => ?_⟩
  · rcases List.mem_append.1 hx with hx | hx
    · exact h.arrived x hx hsupply
    · exact absurd (List.mem_singleton.1 hx ▸ hsupply) hid
  · by_cases hne : x = id
    · subst hne
      rw [← h.config] at hconfig
      rw [← h.now] at hnow
      exact Markers.exists_holds_fail hconfig hnow reason
    · rw [hother hne]
      exact h.held x ((List.mem_append.1 hx).resolve_right (by simpa using hne)) hsupply
  · obtain ⟨hseen, hne⟩ := not_or.1 (mt List.mem_append.2 hx)
    rw [Markers.isRetryAllowed, hother (by simpa using hne)]
    exact h.free x hseen hallowed

/-- The engine when the answers of a steady store are carried out. -/
theorem published {σ : Type} {store : ContentStore σ} {content : σ} {ids : List MessageId}
    (h : Fetched start supply seen e) (hconfig : start.config.retry.isValid = true)
    (hnow : start.now < .last) (hstore : store.Steady content supply)
    (hvalid : ∀ (id : MessageId) (m : Message), supply[id]? = some m →
      m.validate (some id.author) start.config.validation = .ok ())
    (hids : ∀ id ∈ ids, start.state.isDeleted id.author = false) :
    Fetched start supply (seen ++ ids)
      ((store.published content ids).foldl (fun e event => (e.apply event).1) e) := by
  induction ids generalizing content seen e with
  | nil => rwa [List.append_nil]
  | cons id ids ih =>
    obtain ⟨hauthor, hids⟩ := List.forall_mem_cons.1 hids
    have hrest := hstore.fetched [id]
    rw [ContentStore.published, List.foldl_append, List.append_cons]
    refine ih ?_ hrest hids
    rcases hstore.eventOf? id with ⟨m, hm, hevent⟩ | ⟨hid, reason, hevent⟩
    · obtain rfl := hstore.keyed id m hm
      have happly : (e.apply (.messageReceived m (some m.id.author))).1 =
          (e.receive m (some m.id.author)).1 := by
        rw [apply]
        split <;> simp [*]
      rw [hevent]
      show Fetched _ _ _ (e.apply (.messageReceived m (some m.id.author))).1
      rw [happly]
      exact h.receive hm (hvalid m.id m hm) hauthor
    · rw [hevent]
      exact h.fail hconfig hnow hid reason

/-! ## What is left to fetch -/

/-- No message that the store was asked for is asked for again. -/
theorem not_mem_of_mem_toFetch (h : Fetched start supply seen e) (hx : x ∈ e.toFetch) :
    x ∉ seen := by
  obtain ⟨-, -, hstored, hallowed⟩ := State.mem_toFetch.1 hx
  intro hseen
  by_cases hsupply : x ∈ supply
  · rw [h.arrived x hseen hsupply] at hstored
    cases hstored
  · obtain ⟨m, hm, hholds⟩ := h.held x hseen hsupply
    rw [Markers.not_isRetryAllowed_of_holds hm hholds] at hallowed
    cases hallowed

theorem mem_nameable (h : Fetched start supply seen e) (hx : x ∈ e.toFetch) :
    x ∈ start.state.nameable supply := by
  have hnamed {b : BoardName} {id : MessageId} {m : Message}
      (hm : (e.state.board b).messages[id]? = some m)
      (hname : m.thread = some x ∨ m.parent = some x) :
      x ∈ start.state.nameable supply := by
    refine List.mem_append_right _ (List.mem_flatMap.2 ⟨m, h.stored b id m hm, ?_⟩)
    simpa [@eq_comm _ x] using hname
  obtain ⟨hwants | ⟨b, hawaits⟩, -⟩ := State.mem_toFetch.1 hx
  · obtain ⟨⟨k, l, hl, hannounces⟩, -⟩ := h.sound.lists.wants_iff.1 hwants
    obtain ⟨ids, hids, -⟩ := (h.sound.lists.announced x k).2 ⟨l, hl, hannounces⟩
    rw [h.announced] at hids
    exact List.mem_append_left _ (Std.ExtTreeMap.mem_keys.2 (mem_iff_getElem?.2 ⟨ids, hids⟩))
  · rcases (h.sound.coherent b).awaits_iff.1 hawaits with
      ⟨k, -, -, id, m, hm, -, hparent⟩ | ⟨-, -, id, m, hm, hthread⟩
    · exact hnamed hm (.inr hparent)
    · exact hnamed hm (.inl hthread)

end Fetched

/-- A sweep takes nothing from the messages to fetch. -/
theorem mem_toFetch_sweep {e : Engine} {x : MessageId} (hx : x ∈ e.toFetch) :
    x ∈ e.sweep.1.toFetch := by
  obtain ⟨hreferred, hauthor, hstored, hallowed⟩ := State.mem_toFetch.1 hx
  exact State.mem_toFetch.2
    ⟨hreferred, hauthor, hstored, Markers.isRetryAllowed_sweep hallowed⟩

end Engine

/-! ## Rounds -/

namespace Host

open ContentStore Engine

variable {σ : Type} {store : ContentStore σ} {h : Host σ} {supply : IdMap Message} {x : MessageId}

/-- There is nothing to publish, and the store is steady with a supply that the engine accepts. -/
structure Supplied (h : Host σ) (store : ContentStore σ) (supply : IdMap Message) : Prop where
  sound : h.engine.state.Sound
  retry : h.engine.config.retry.isValid = true
  clock : h.engine.now < .last
  outbox : h.engine.state.outbox.pending = []
  steady : store.Steady h.content supply
  valid : ∀ (id : MessageId) (m : Message), supply[id]? = some m →
    m.validate (some id.author) h.engine.config.validation = .ok ()

theorem nodup_requested (h : Host σ) : h.requested.Nodup := by
  refine List.Nodup.sublist (List.take_sublist _ _) ?_
  refine (State.toFetch_ascending _ _).imp fun hlt heq => ?_
  subst heq
  simp at hlt

theorem toFetch_of_requested_nil (hnone : h.requested = []) : h.engine.toFetch = [] := by
  have hbatch : h.batch ≠ 0 := by
    have := Nat.le_max_right h.engine.config.fetchBatch.toNat 1
    rw [batch]
    omega
  have hswept : h.engine.sweep.1.toFetch = [] := (List.take_eq_nil_iff.1 hnone).resolve_left hbatch
  refine List.eq_nil_iff_forall_not_mem.2 fun x hx => ?_
  have hx := mem_toFetch_sweep hx
  rw [hswept] at hx
  cases hx

namespace Supplied

/-- What is supposed of a host holds after fetches too. -/
theorem of_fetched (hs : h.Supplied store supply) {k : Host σ} {seen : List MessageId}
    (hcontent : k.content = store.fetched h.content seen)
    (hengine : Fetched h.engine supply seen k.engine) : k.Supplied store supply := by
  refine ⟨hengine.sound, ?_, ?_, ?_, ?_, ?_⟩
  · rw [hengine.config]
    exact hs.retry
  · rw [hengine.now]
    exact hs.clock
  · rw [hengine.outbox]
    exact hs.outbox
  · rw [hcontent]
    exact hs.steady.fetched seen
  · rw [hengine.config]
    exact hs.valid

/-- What several rounds do to content and engine. -/
theorem rounds (hs : h.Supplied store supply) (n : Nat) :
    (h.rounds store n).content = store.fetched h.content (h.asked store n) ∧
      Fetched h.engine supply (h.asked store n) (h.rounds store n).engine := by
  induction n with
  | zero => exact ⟨rfl, .refl hs.sound supply⟩
  | succ n ih =>
    obtain ⟨hcontent, hfetched⟩ := ih
    have hbefore := hs.of_fetched hcontent hfetched
    have hauthors : ∀ id ∈ (h.rounds store n).requested,
        h.engine.state.isDeleted id.author = false := by
      intro id hid
      obtain ⟨-, hauthor, -⟩ := State.mem_toFetch.1 (List.mem_of_mem_take hid)
      rwa [State.isDeleted, hfetched.sweep.deleted] at hauthor
    obtain ⟨hcontent', hengine'⟩ := round_eq hbefore.steady hbefore.outbox
    rw [asked_succ, fetched_append, ← hcontent]
    refine ⟨hcontent', ?_⟩
    show Fetched _ _ _ ((h.rounds store n).round store).engine
    rw [hengine']
    exact hfetched.sweep.published hs.retry hs.clock hbefore.steady hs.valid hauthors

theorem nodup_asked (hs : h.Supplied store supply) (n : Nat) : (h.asked store n).Nodup := by
  induction n with
  | zero => exact List.nodup_nil
  | succ n ih =>
    rw [asked_succ]
    refine ih.append (nodup_requested _) fun x hx hrequested => ?_
    exact (hs.rounds n).2.sweep.not_mem_of_mem_toFetch (List.mem_of_mem_take hrequested) hx

theorem mem_nameable_of_mem_asked (hs : h.Supplied store supply) {n : Nat}
    (hx : x ∈ h.asked store n) : x ∈ h.engine.state.nameable supply := by
  obtain ⟨k, -, hrequested⟩ := List.mem_flatMap.1 hx
  exact (hs.rounds k).2.sweep.mem_nameable (List.mem_of_mem_take hrequested)

theorem length_asked_le (hs : h.Supplied store supply) (n : Nat) :
    (h.asked store n).length ≤ (h.engine.state.nameable supply).length :=
  ((hs.nodup_asked n).subperm fun _ hx => hs.mem_nameable_of_mem_asked hx).length_le

/-- Only so many rounds ask for anything. -/
theorem exists_rest (hs : h.Supplied store supply) :
    ∃ n, ∀ k ≥ n, (h.rounds store k).requested = [] := by
  by_contra hnone
  push Not at hnone
  have hmono : Monotone fun n => (h.asked store n).length := by
    refine monotone_nat_of_le_succ fun n => ?_
    rw [asked_succ, List.length_append]
    omega
  have hlong (d : Nat) : ∃ n, d ≤ (h.asked store n).length := by
    induction d with
    | zero => exact ⟨0, Nat.zero_le _⟩
    | succ d ih =>
      obtain ⟨n, hn⟩ := ih
      obtain ⟨k, hk, hne⟩ := hnone n
      have hle : (h.asked store n).length ≤ (h.asked store k).length := hmono hk
      have hpos := List.length_pos_of_ne_nil hne
      refine ⟨k + 1, ?_⟩
      rw [asked_succ, List.length_append]
      omega
  obtain ⟨n, hn⟩ := hlong ((h.engine.state.nameable supply).length + 1)
  have hle := hs.length_asked_le n
  omega

end Supplied

/-- However an engine came about, with a valid configuration, nothing to publish and the clock not at
its last moment: if the clock stands still while the store keeps to its answers and supplies finitely
many messages, all of which the engine accepts, rounds of fetching come to rest. What a pass publishes
are the answers of the store to what the pass asks for. The store is never asked for a message twice,
and after some round there is nothing left to fetch. Every supplied message that is still wanted by
then is stored, unless its author is deleted or a failed fetch held it back from the start. -/
theorem stages_come_to_rest (config : EngineConfig) (trust : Trust) (now : Timestamp)
    (l : List Stage) (store : ContentStore σ) (bus : Bus) (content : σ) (supply : IdMap Message) :
    let e := (Engine.new config trust now).stages l
    let h : Host σ := ⟨e, bus, content⟩
    e.config.check = .ok () → e.state.outbox.pending = [] → e.now < .last →
    store.Steady content supply →
    (∀ (id : MessageId) (m : Message), supply[id]? = some m →
      m.validate (some id.author) e.config.validation = .ok ()) →
    (∀ n, let k := h.rounds store n
      (k.pass store).1 =
        { engine := k.engine.sweep.1
          bus := (store.published k.content k.requested).foldl (fun b event => (b.publish event).1)
            k.bus
          content := store.fetched k.content k.requested }) ∧
    (∀ n, (h.asked store n).Nodup) ∧
    ∃ n, ∀ k ≥ n, let later := (h.rounds store k).engine
      later.toFetch = [] ∧
      ∀ x ∈ supply, later.state.lists.Wants x ∨ (∃ b, (later.state.board b).Awaits x) →
        later.state.isDeleted x.author = false →
        e.state.markers.isRetryAllowed (.message x) e.now = true →
        later.state.isStored x = true := by
  intro e h hconfig houtbox hclock hsteady hvalid
  have hs : h.Supplied store supply := ⟨sound_stages State.sound_empty l,
    EngineConfig.isValid_of_check hconfig, hclock, houtbox, hsteady, hvalid⟩
  have hbefore (n : Nat) := hs.of_fetched (hs.rounds n).1 (hs.rounds n).2
  refine ⟨fun n => pass_fst (hbefore n).steady (hbefore n).outbox, hs.nodup_asked, ?_⟩
  obtain ⟨n, hrest⟩ := hs.exists_rest
  refine ⟨n, fun k hk => ?_⟩
  have hfetched := (hs.rounds k).2
  have hnone := toFetch_of_requested_nil (hrest k hk)
  refine ⟨hnone, fun x hx hwanted hauthor hallowed => ?_⟩
  by_contra hstored
  rw [Bool.not_eq_true] at hstored
  have hseen : x ∉ h.asked store k := fun hseen => by
    rw [hfetched.arrived x hseen hx] at hstored
    cases hstored
  have hqueued : x ∈ (h.rounds store k).engine.toFetch :=
    State.mem_toFetch.2 ⟨hwanted, hauthor, hstored, hfetched.free x hseen hallowed⟩
  rw [hnone] at hqueued
  cases hqueued

/-- A board has a reply, whose thread and parent are asked for. The store has both, but gives only the
root of the thread for now. -/
theorem ring_comes_to_rest :
    let e := (Engine.new {} .everyone 0).stages [.op (.receive Board.Ring.first none)]
    let content := ((MemoryStore.empty.put Board.Ring.root).put Board.Ring.second).setFlaky
      Board.Ring.second.id true
    let h : Host MemoryStore := ⟨e, .new 4, content⟩
    e.toFetch = [Board.Ring.root.id, Board.Ring.second.id] ∧
      (∀ n, (h.asked MemoryStore.calls n).Nodup) ∧
      (h.rounds MemoryStore.calls 1).engine.state.isStored Board.Ring.root.id = true ∧
      ∃ n, ∀ k ≥ n, (h.rounds MemoryStore.calls k).engine.toFetch = [] := by
  intro e content h
  have hkeyed : ∀ entry ∈ content.messages.toList, entry.2.id = entry.1 := by decide +kernel
  have hvalid : ∀ entry ∈ content.supply.toList,
      entry.2.validate (some entry.1.author) e.config.validation = .ok () := by decide +kernel
  obtain ⟨-, hasked, n, hrest⟩ := stages_come_to_rest {} .everyone 0
    [.op (.receive Board.Ring.first none)] MemoryStore.calls (.new 4) content content.supply
    (by decide +kernel) (by decide +kernel) (by decide +kernel)
    (content.steady_calls fun id m hm =>
      hkeyed (id, m) (Std.ExtTreeMap.mem_toList_iff_getElem?_eq_some.2 hm))
    fun id m hm => hvalid (id, m) (Std.ExtTreeMap.mem_toList_iff_getElem?_eq_some.2 hm)
  exact ⟨by decide +kernel, hasked, by decide +kernel, n, fun k hk => (hrest k hk).1⟩

end Host

end Noticeboard
