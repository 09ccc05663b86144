import Mathlib.Algebra.GroupWithZero.Nat
import Noticeboard.Proofs.Bus.Listeners
import Noticeboard.Proofs.Bus.Reading

/-!
# The account of a subscriber

A run of the bus is any interleaving of publishing, subscribing, reading and leaving, by any number
of subscribers. Each of them reads in single turns, with anything between one and the next, or in
whole loops of turns.

`act_passed` says what one act of anyone means for a given subscriber: it goes on along a log that
holds one event more after a publication. By induction, so it does in a run, and from its trail
follows the account of what it was told (`run_accounted`).
-/

namespace Noticeboard

namespace Bus

/-- What happens to a bus. -/
inductive Act where
  | publish (e : Event)
  | subscribe (f : Filter)
  | drop (t : Ticket)
  /-- One turn of the reader with this ticket. -/
  | look (t : Ticket)
  /-- The reader with this ticket turns until it is told something. -/
  | receive (t : Ticket)
  | close
deriving DecidableEq

/-- What an act publishes. -/
def Act.published : Act → List Event
  | publish e => [e]
  | subscribe _ | drop _ | look _ | receive _ | close => []

/-- The bus after an act, and who is told what by it. -/
def act (b : Bus) : Act → Bus × List (Ticket × Delivery)
  | .publish e => ((b.publish e).1, [])
  | .subscribe f => ((b.subscribe f).1, [])
  | .drop t => (b.unsubscribe t, [])
  | .look t =>
    match b.subscribers[t]? with
    | none => (b, [])
    | some s => (b.place t (b.look s).1, (b.look s).2.toList.map (t, ·))
  | .receive t =>
    match b.receive? t with
    | none => (b, [])
    | some (b, d) => (b, [(t, d)])
  | .close => (b.close, [])

/-- One act after the other. -/
def run (b : Bus) : List Act → Bus × List (Ticket × Delivery)
  | [] => (b, [])
  | a :: acts => (((b.act a).1.run acts).1, (b.act a).2 ++ ((b.act a).1.run acts).2)

/-- What the subscriber with the ticket is told. -/
def heard (t : Ticket) (told : List (Ticket × Delivery)) : List Delivery :=
  told.filterMap fun d => if d.1 = t then some d.2 else none

variable {b : Bus} {log : List Event} {s : Subscriber} {t : Ticket} {a : Act} {acts : List Act}

theorem heard_append (t : Ticket) (told told' : List (Ticket × Delivery)) :
    heard t (told ++ told') = heard t told ++ heard t told' :=
  List.filterMap_append

/-! ## Single acts -/

theorem subscribers_publish (b : Bus) (e : Event) : (b.publish e).1.subscribers = b.subscribers := by
  unfold publish
  dsimp only
  split <;> rfl

theorem nextTicket_publish (b : Bus) (e : Event) : (b.publish e).1.nextTicket = b.nextTicket := by
  unfold publish
  dsimp only
  split <;> rfl

theorem getElem?_unsubscribe (b : Bus) (t u : Ticket) :
    (b.unsubscribe t).subscribers[u]? = if t = u then none else b.subscribers[u]? := by
  unfold unsubscribe
  split
  · next hs =>
    split
    · next heq => rw [← heq, hs]
    · rfl
  · simp only [Std.ExtTreeMap.getElem?_erase, Std.LawfulEqOrd.compare_eq_iff_eq]

theorem nextTicket_unsubscribe (b : Bus) (t : Ticket) :
    (b.unsubscribe t).nextTicket = b.nextTicket := by
  unfold unsubscribe
  split <;> rfl

theorem act_look (hs : b.subscribers[t]? = some s) :
    b.act (.look t) = (b.place t (b.look s).1, (b.look s).2.toList.map (t, ·)) := by
  rw [act, hs]

theorem act_receive (hs : b.subscribers[t]? = some s) :
    b.act (.receive t) = (b.place t (b.next s).1, [(t, (b.next s).2)]) := by
  rw [act, receive?, hs]
  rfl

theorem act_of_unknown (hs : b.subscribers[t]? = none) :
    b.act (.look t) = (b, []) ∧ b.act (.receive t) = (b, []) := by
  refine ⟨by rw [act, hs], ?_⟩
  rw [act, receive?, hs]
  rfl

/-- Reading with a ticket moves its reader, which may be told something, and does nothing else. -/
inductive Read (b : Bus) (t : Ticket) : Bus × List (Ticket × Delivery) → Prop where
  | unknown : b.subscribers[t]? = none → Read b t (b, [])
  | moved {s s' : Subscriber} {told : List Delivery} : b.subscribers[t]? = some s →
    s'.filter = s.filter → Read b t (b.place t s', told.map (t, ·))

theorem read_look (b : Bus) (t : Ticket) : Read b t (b.act (.look t)) := by
  cases hs : b.subscribers[t]? with
  | none =>
    rw [(act_of_unknown hs).1]
    exact .unknown hs
  | some s =>
    rw [act_look hs]
    exact .moved hs (look_filter b s)

theorem read_receive (b : Bus) (t : Ticket) : Read b t (b.act (.receive t)) := by
  cases hs : b.subscribers[t]? with
  | none =>
    rw [(act_of_unknown hs).2]
    exact .unknown hs
  | some s =>
    rw [act_receive hs]
    show Read b t (b.place t (b.next s).1, [(b.next s).2].map (t, ·))
    exact .moved hs (next_filter b s)

namespace Read

variable {r : Bus × List (Ticket × Delivery)} {u : Ticket}

theorem counted (h : Read b t r) (hb : Counted b) : Counted r.1 := by
  cases h with
  | unknown _ => exact hb
  | moved hs hfilter => exact hb.place hs hfilter

theorem keeps (h : Read b t r) (hb : Keeps b log) : Keeps r.1 log := by
  cases h with
  | unknown _ => exact hb
  | moved _ _ => exact ⟨hb.sent, hb.kept⟩

theorem nextTicket_eq (h : Read b t r) : r.1.nextTicket = b.nextTicket := by
  cases h <;> rfl

theorem other (h : Read b u r) (hu : u ≠ t) :
    r.1.subscribers[t]? = b.subscribers[t]? ∧ heard t r.2 = [] := by
  cases h with
  | unknown _ => exact ⟨rfl, rfl⟩
  | moved _ _ =>
    refine ⟨?_, by simp [heard, hu]⟩
    rw [place, Std.ExtTreeMap.getElem?_insert,
      if_neg fun heq => hu (Std.LawfulEqOrd.eq_of_compare heq)]

end Read

theorem counted_act (h : Counted b) (a : Act) : Counted (b.act a).1 := by
  cases a with
  | publish e => exact h.publish e
  | subscribe f => exact h.subscribe f
  | drop t => exact h.unsubscribe t
  | look t => exact (read_look b t).counted h
  | receive t => exact (read_receive b t).counted h
  | close => exact ⟨h.fresh, h.count, h.written⟩

theorem counted_run (h : Counted b) (acts : List Act) : Counted (b.run acts).1 := by
  induction acts generalizing b with
  | nil => exact h
  | cons a acts ih => exact ih (counted_act h a)

/-! ## The log of a run -/

/-- What an act adds to the log: an event that nobody listens to is not passed on. -/
def passedOn (b : Bus) (a : Act) : List Event :=
  if b.subscribers.size = 0 then [] else a.published

theorem passedOn_of_subscriber (hs : b.subscribers[t]? = some s) (a : Act) :
    b.passedOn a = a.published := by
  refine if_neg fun hzero => ?_
  rw [← Std.ExtTreeMap.eq_empty_iff_size_eq_zero] at hzero
  rw [hzero] at hs
  simp at hs

theorem keeps_new (capacity : Nat) : Keeps (new capacity) [] := ⟨rfl, List.drop_nil.symm⟩

theorem Keeps.publish (h : Keeps b log) (e : Event) :
    Keeps (b.publish e).1 (log ++ b.passedOn (.publish e)) := by
  unfold Bus.publish passedOn
  by_cases hzero : b.subscribers.size = 0
  · simp only [hzero, if_true, List.append_nil]
    exact ⟨h.sent, h.kept⟩
  · simp only [if_neg hzero]
    refine ⟨?_, ?_⟩
    · show b.sent + 1 = (log ++ [e]).length
      rw [h.sent, List.length_append, List.length_singleton]
    · -- the window moves on by one event once it is full
      show (b.kept ++ [e]).drop ((b.kept ++ [e]).length - b.window) =
        (log ++ [e]).drop ((log ++ [e]).length - b.window)
      rw [h.kept, ← List.drop_append_of_le_length (Nat.sub_le ..), List.drop_drop]
      simp only [List.length_drop, List.length_append, List.length_singleton]
      congr 1
      omega

theorem Keeps.unsubscribe (h : Keeps b log) (t : Ticket) : Keeps (b.unsubscribe t) log := by
  unfold Bus.unsubscribe
  split <;> exact ⟨h.sent, h.kept⟩

theorem Keeps.act (h : Keeps b log) (a : Act) : Keeps (b.act a).1 (log ++ b.passedOn a) := by
  have hsilent (hpublished : a.published = []) : log ++ b.passedOn a = log := by
    rw [passedOn, hpublished, ite_self, List.append_nil]
  cases a with
  | publish e => exact h.publish e
  | subscribe f =>
    rw [hsilent rfl]
    exact ⟨h.sent, h.kept⟩
  | drop t =>
    rw [hsilent rfl]
    exact h.unsubscribe t
  | look t =>
    rw [hsilent rfl]
    exact (read_look b t).keeps h
  | receive t =>
    rw [hsilent rfl]
    exact (read_receive b t).keeps h
  | close =>
    rw [hsilent rfl]
    exact ⟨h.sent, h.kept⟩

theorem keeps_run (h : Keeps b log) (acts : List Act) : ∃ log', Keeps (b.run acts).1 log' := by
  induction acts generalizing b log with
  | nil => exact ⟨log, h⟩
  | cons a acts ih => exact ih (h.act a)

/-! ## What an act means for one subscriber -/

theorem nextTicket_act_le (b : Bus) (a : Act) : b.nextTicket ≤ (b.act a).1.nextTicket := by
  cases a with
  | publish e => exact Nat.le_of_eq (nextTicket_publish b e).symm
  | subscribe f => exact Nat.le_succ _
  | drop t => exact Nat.le_of_eq (nextTicket_unsubscribe b t).symm
  | look t => exact Nat.le_of_eq (read_look b t).nextTicket_eq.symm
  | receive t => exact Nat.le_of_eq (read_receive b t).nextTicket_eq.symm
  | close => exact Nat.le_refl _

/-- What the others do neither moves a subscriber nor tells it anything. -/
theorem act_other (ht : t < b.nextTicket) (hdrop : a ≠ .drop t) (hlook : a ≠ .look t)
    (hreceive : a ≠ .receive t) :
    (b.act a).1.subscribers[t]? = b.subscribers[t]? ∧ heard t (b.act a).2 = [] := by
  cases a with
  | publish e =>
    refine ⟨?_, rfl⟩
    show (b.publish e).1.subscribers[t]? = _
    rw [subscribers_publish]
  | subscribe f =>
    refine ⟨?_, rfl⟩
    show (b.subscribers.insert b.nextTicket _)[t]? = _
    rw [Std.ExtTreeMap.getElem?_insert,
      if_neg fun heq => Nat.ne_of_gt ht (Std.LawfulEqOrd.eq_of_compare heq)]
  | drop u =>
    have hu : u ≠ t := fun heq => hdrop (heq ▸ rfl)
    refine ⟨?_, rfl⟩
    show (b.unsubscribe u).subscribers[t]? = _
    rw [getElem?_unsubscribe, if_neg hu]
  | look u => exact (read_look b u).other fun heq => hlook (heq ▸ rfl)
  | receive u => exact (read_receive b u).other fun heq => hreceive (heq ▸ rfl)
  | close => exact ⟨rfl, rfl⟩

theorem act_passed (h : Keeps b log) (hs : b.subscribers[t]? = some s) (hn : s.next ≤ log.length)
    (ht : t < b.nextTicket) (hlive : a ≠ .drop t) :
    ∃ s' trail, (b.act a).1.subscribers[t]? = some s' ∧
      Passed (log ++ a.published) s s' trail ((heard t (b.act a).2).filter Delivery.isNews) := by
  by_cases hlook : a = .look t
  · obtain ⟨trail, hpassed⟩ := look_passed h hn
    rw [hlook, act_look hs]
    refine ⟨(b.look s).1, trail, Std.ExtTreeMap.getElem?_insert_self, ?_⟩
    have hheard : heard t ((b.look s).2.toList.map (t, ·)) = (b.look s).2.toList := by
      simp [heard]
    rw [hheard]
    exact hpassed.extend _
  by_cases hreceive : a = .receive t
  · obtain ⟨trail, hpassed⟩ := (loop_next h hn).passed h hn
    rw [hreceive, act_receive hs]
    refine ⟨(b.next s).1, trail, Std.ExtTreeMap.getElem?_insert_self, ?_⟩
    have hheard : heard t [(t, (b.next s).2)] = [(b.next s).2] := by simp [heard]
    rw [hheard]
    exact hpassed.extend _
  obtain ⟨hsame, hsilent⟩ := act_other ht hlive hlook hreceive
  rw [hsame, hsilent]
  exact ⟨s, [], hs, (Passed.refl hn).extend _⟩

/-- The events published in a run. -/
def publications (acts : List Act) : List Event := acts.flatMap Act.published

theorem run_passed (h : Keeps b log) (hs : b.subscribers[t]? = some s) (hn : s.next ≤ log.length)
    (ht : t < b.nextTicket) (hlive : .drop t ∉ acts) :
    Keeps (b.run acts).1 (log ++ publications acts) ∧
      ∃ s' trail, (b.run acts).1.subscribers[t]? = some s' ∧
        Passed (log ++ publications acts) s s' trail
          ((heard t (b.run acts).2).filter Delivery.isNews) := by
  induction acts generalizing b log s with
  | nil =>
    rw [publications, List.flatMap_nil, List.append_nil]
    exact ⟨h, s, [], hs, .refl hn⟩
  | cons a acts ih =>
    obtain ⟨hfirst, hrest⟩ := List.ne_and_not_mem_of_not_mem_cons hlive
    have hkeeps := h.act a
    rw [passedOn_of_subscriber hs] at hkeeps
    obtain ⟨s₁, trail₁, hs₁, hpassed₁⟩ := act_passed h hs hn ht hfirst.symm
    obtain ⟨hkeeps', s', trail, hs', hpassed⟩ := ih hkeeps hs₁ hpassed₁.stop
      (Nat.lt_of_lt_of_le ht (nextTicket_act_le b a)) hrest
    have hlog : log ++ publications (a :: acts) = log ++ a.published ++ publications acts := by
      rw [publications, List.flatMap_cons, List.append_assoc, publications]
    rw [hlog, run, heard_append, List.filter_append]
    exact ⟨hkeeps', s', trail₁ ++ trail, hs', (hpassed₁.extend _).trans hpassed⟩

/-- A ticket is not given again, so who has left hears nothing. -/
theorem heard_of_left (hs : b.subscribers[t]? = none) (ht : t < b.nextTicket) :
    heard t (b.run acts).2 = [] := by
  induction acts generalizing b with
  | nil => rfl
  | cons a acts ih =>
    have hstep : (b.act a).1.subscribers[t]? = none ∧ heard t (b.act a).2 = [] := by
      by_cases hdrop : a = .drop t
      · have hsame : b.act a = (b, []) := by rw [hdrop, act, unsubscribe, hs]
        rw [hsame]
        exact ⟨hs, rfl⟩
      by_cases hlook : a = .look t
      · rw [hlook, (act_of_unknown hs).1]
        exact ⟨hs, rfl⟩
      by_cases hreceive : a = .receive t
      · rw [hreceive, (act_of_unknown hs).2]
        exact ⟨hs, rfl⟩
      rw [← hs]
      exact act_other ht hdrop hlook hreceive
    rw [run, heard_append, hstep.2, List.nil_append]
    exact ih hstep.1 (Nat.lt_of_lt_of_le ht (nextTicket_act_le b a))

theorem heard_stay (ht : t < b.nextTicket) (acts : List Act) :
    heard t (b.run acts).2 = heard t (b.run (acts.takeWhile (· ≠ .drop t))).2 := by
  induction acts generalizing b with
  | nil => rfl
  | cons a acts ih =>
    have hnext := Nat.lt_of_lt_of_le ht (nextTicket_act_le b a)
    by_cases hdrop : a = .drop t
    · rw [List.takeWhile_cons_of_neg (by simpa using hdrop)]
      subst hdrop
      show heard t ((b.unsubscribe t).run acts).2 = []
      exact heard_of_left (by rw [getElem?_unsubscribe, if_pos rfl]) hnext
    · rw [List.takeWhile_cons_of_pos (by simpa using hdrop)]
      simp only [run, heard_append]
      rw [ih hnext]

/-! ## The account -/

end Bus

/-- The event given, if one is. -/
def Delivery.event? : Delivery → Option Event
  | event e => some e
  | nothing | lagged _ | closed => none

/-- The number of events reported lost. -/
def Delivery.missed : Delivery → Nat
  | lagged lost => lost
  | event _ | nothing | closed => 0

/-- The event taken, if one is. -/
def Passage.taken? : Passage → Option Event
  | taken e => some e
  | lost _ => none

namespace Bus

variable {b : Bus} {log : List Event} {s s₀ : Subscriber} {trail : List Passage}

theorem filterMap_event?_news (told : List Delivery) :
    (told.filter Delivery.isNews).filterMap Delivery.event? = told.filterMap Delivery.event? := by
  induction told with
  | nil => rfl
  | cons d told ih => cases d <;>
      simp [List.filter_cons, List.filterMap_cons, Delivery.isNews, Delivery.event?, ih]

theorem sum_missed_news (told : List Delivery) :
    ((told.filter Delivery.isNews).map Delivery.missed).sum = (told.map Delivery.missed).sum := by
  induction told with
  | nil => rfl
  | cons d told ih => cases d <;> simp [List.filter_cons, Delivery.isNews, Delivery.missed, ih]

theorem filterMap_event?_told (f : Filter) (trail : List Passage) :
    (trail.filterMap (Passage.told f)).filterMap Delivery.event? =
      (trail.filterMap Passage.taken?).filter f.accepts := by
  induction trail with
  | nil => rfl
  | cons p trail ih =>
    cases p with
    | taken e =>
      cases he : f.accepts e <;>
        simp [Passage.told, Passage.taken?, Delivery.event?, he, ih]
    | lost es => simp [List.filterMap_cons, Passage.told, Passage.taken?, Delivery.event?, ih]

theorem length_flatMap_events (f : Filter) (trail : List Passage) :
    (trail.flatMap Passage.events).length = (trail.filterMap Passage.taken?).length +
      ((trail.filterMap (Passage.told f)).map Delivery.missed).sum := by
  induction trail with
  | nil => rfl
  | cons p trail ih =>
    rw [List.flatMap_cons, List.length_append, ih]
    cases p with
    | taken e =>
      cases he : f.accepts e <;>
        simp [Passage.events, Passage.taken?, Passage.told, Delivery.missed, he] <;> omega
    | lost es =>
      simp [List.filterMap_cons, Passage.events, Passage.taken?, Passage.told, Delivery.missed]
      omega

theorem taken_sublist (trail : List Passage) :
    (trail.filterMap Passage.taken?).Sublist (trail.flatMap Passage.events) := by
  induction trail with
  | nil => exact .refl _
  | cons p trail ih =>
    cases p with
    | taken e => exact ih.cons_cons e
    | lost es => exact ih.trans (List.sublist_append_right es _)

/-- The account of the reader `s` of what was published for it and what it was told: its trail, in
which the events it has behind it stand in their order, and the events it has not reached. -/
structure Account (b : Bus) (s : Subscriber) (published : List Event) (told : List Delivery)
    (trail : List Passage) (unreached : List Event) : Prop where
  order : published = trail.flatMap Passage.events ++ unreached
  news : told.filter Delivery.isNews = trail.filterMap (Passage.told s.filter)
  lost : ∀ es, Passage.lost es ∈ trail → es ≠ []
  given : told.filterMap Delivery.event? = (trail.filterMap Passage.taken?).filter s.filter.accepts
  sublist : (told.filterMap Delivery.event?).Sublist (published.filter s.filter.accepts)
  total : published.length = (trail.filterMap Passage.taken?).length +
    (told.map Delivery.missed).sum + unreached.length
  /-- What it has not reached is waiting for it, but for what the next delivery reports lost. -/
  waiting : ∃ gone, unreached = gone ++ b.ahead s.next ∧
    (gone ≠ [] → (b.next s).2 = .lagged gone.length)

theorem Keeps.waiting (h : Keeps b log) (hs : s.next ≤ log.length) :
    ∃ gone, log.drop s.next = gone ++ b.ahead s.next ∧
      (gone ≠ [] → (b.next s).2 = .lagged gone.length) := by
  refine ⟨_, h.drop_eq s.next, fun hgone => ?_⟩
  have hold := h.oldest_eq
  have hlag : s.next < b.oldest := by
    refine Nat.lt_of_not_le fun hreach => hgone ?_
    rw [Nat.sub_eq_zero_of_le hreach, List.take_zero]
  rw [next_behind hlag, List.length_take, List.length_drop]
  show Delivery.lagged (b.oldest - s.next) = _
  congr 1
  omega

theorem Passed.account {told : List Delivery} (h : Keeps b log)
    (hpassed : Passed log s₀ s trail (told.filter Delivery.isNews)) :
    Account b s (log.drop s₀.next) told trail (log.drop s.next) := by
  have hgiven : told.filterMap Delivery.event? =
      (trail.filterMap Passage.taken?).filter s.filter.accepts := by
    rw [← filterMap_event?_news, hpassed.news, filterMap_event?_told, hpassed.filter]
  refine ⟨hpassed.split, by rw [hpassed.news, hpassed.filter], hpassed.lost, hgiven, ?_, ?_,
    h.waiting hpassed.stop⟩
  · rw [hgiven, hpassed.split]
    exact ((taken_sublist trail).trans (List.sublist_append_left _ _)).filter _
  · rw [hpassed.split, List.length_append, length_flatMap_events s₀.filter, ← hpassed.news,
      sum_missed_news]

/-- After every run, the bus counts for each list of topics the subscribers that listen to just
these, and has no zero among its counts. And whoever subscribes hears, until it leaves, what its
account says of the events published since, and nothing later. -/
theorem run_accounted (capacity : Nat) :
    (∀ acts, let b := ((new capacity).run acts).1
      (∀ f : Filter, b.byTopics[f.topicsText]? =
        if b.listeners f.topics = 0 then none else some (b.listeners f.topics)) ∧
      ∀ text n, b.byTopics[text]? = some n → n ≠ 0 ∧ ∃ f : Filter, text = f.topicsText) ∧
    ∀ (before : List Act) (f : Filter) (after : List Act),
      let joined := ((new capacity).run before).1.subscribe f
      let stay := after.takeWhile (· ≠ .drop joined.2)
      let b := (joined.1.run stay).1
      let told := heard joined.2 (joined.1.run stay).2
      heard joined.2 (joined.1.run after).2 = told ∧
      ∃ s trail unreached, b.subscribers[joined.2]? = some s ∧ s.filter = f ∧
        Account b s (publications stay) told trail unreached := by
  refine ⟨fun acts => ?_, fun before f after => ?_⟩
  · have hcounted := counted_run (counted_new capacity) acts
    exact ⟨hcounted.count, fun _ _ => hcounted.entry⟩
  intro joined stay b told
  obtain ⟨log, hkeeps⟩ := keeps_run (keeps_new capacity) before
  have hticket : joined.2 < joined.1.nextTicket := Nat.lt_succ_self _
  have hjoined : joined.1.subscribers[joined.2]? = some ⟨f, joined.1.sent⟩ :=
    Std.ExtTreeMap.getElem?_insert_self
  replace hkeeps : Keeps joined.1 log := ⟨hkeeps.sent, hkeeps.kept⟩
  have hstay : .drop joined.2 ∉ stay := fun hin => by
    have hne := List.all_eq_true.1 List.all_takeWhile _ hin
    simp at hne
  obtain ⟨hkeeps', s, trail, hs, hpassed⟩ :=
    run_passed hkeeps hjoined (Nat.le_of_eq hkeeps.sent) hticket hstay
  refine ⟨?_, s, trail, (log ++ publications stay).drop s.next, hs, hpassed.filter, ?_⟩
  · exact heard_stay hticket after
  · have haccount := hpassed.account hkeeps'
    rwa [hkeeps.sent, List.drop_left] at haccount

/-- With room for one event, the first of two is reported lost. -/
example : heard 0 ((new 1).run [.subscribe {}, .publish (.identityDeleted ⟨1⟩),
    .publish (.identityDeleted ⟨2⟩), .receive 0, .look 0, .look 0]).2 =
      [.lagged 1, .event (.identityDeleted ⟨2⟩), .nothing] := by decide +kernel

end Bus

end Noticeboard
