import Noticeboard.Bus
import Mathlib.Data.List.Basic

/-!
# Reading from the bus

The log of a bus is the list of the events that it has passed on. The bus keeps the end of it, and a
reader stands somewhere in it. `look` is one turn of a reader: it is told of a loss, or takes one
event, or finds none; `Bus.next` is the loop of such turns, which goes on while the events taken are
refused by the filter (`loop_next`).

A reader's way through the log is its trail, a list of events taken and of stretches lost. What it is
told is determined by the trail, and the trail and the rest of the log together are the log
(`Passed`). This holds of one turn, so of a loop of turns.
-/

namespace Noticeboard

/-- Whether a reader learns of an event, or of the loss of some. -/
def Delivery.isNews : Delivery → Bool
  | event _ | lagged _ => true
  | nothing | closed => false

/-- What a reader leaves behind it on its way through the log. -/
inductive Passage where
  | taken (e : Event)
  | lost (es : List Event)

namespace Passage

/-- The events passed by. -/
def events : Passage → List Event
  | taken e => [e]
  | lost es => es

/-- What a reader is told of it. -/
def told (f : Filter) : Passage → Option Delivery
  | taken e => if f.accepts e then some (.event e) else none
  | lost es => some (.lagged es.length)

end Passage

namespace Bus

/-- One turn of a reader: where it stands afterwards and what it is told. An event that its filter
refuses is taken in silence. -/
def look (b : Bus) (s : Subscriber) : Subscriber × Option Delivery :=
  if s.next < b.oldest then ({ s with next := b.oldest }, some (.lagged (b.oldest - s.next)))
  else
    match b.ahead s.next with
    | e :: _ =>
      ({ s with next := s.next + 1 }, if s.filter.accepts e then some (.event e) else none)
    | [] => (s, some (if b.closed then .closed else .nothing))

/-- The reader turns until it is told something. -/
inductive Loop (b : Bus) : Subscriber → Subscriber × Delivery → Prop where
  | done {s s' : Subscriber} {d : Delivery} : b.look s = (s', some d) → Loop b s (s', d)
  | again {s s' : Subscriber} {r : Subscriber × Delivery} :
    b.look s = (s', none) → Loop b s' r → Loop b s r

/-- The events of the log were passed on, and the last ones are kept. -/
structure Keeps (b : Bus) (log : List Event) : Prop where
  sent : b.sent = log.length
  kept : b.kept = log.drop (log.length - b.window)

variable {b : Bus} {log : List Event} {s s' s'' : Subscriber}

theorem Keeps.oldest_eq (h : Keeps b log) : b.oldest = log.length - b.window := by
  rw [oldest, h.sent, h.kept, List.length_drop]
  omega

theorem Keeps.ahead_eq (h : Keeps b log) {n : Nat} (hn : b.oldest ≤ n) :
    b.ahead n = log.drop n := by
  have ho := h.oldest_eq
  rw [ahead, h.kept, List.drop_drop, ← ho]
  congr 1
  omega

theorem Keeps.ahead_of_le (h : Keeps b log) {n : Nat} (hn : n ≤ b.oldest) :
    b.ahead n = log.drop b.oldest := by
  rw [← h.ahead_eq (Nat.le_refl _), ahead, ahead, Nat.sub_eq_zero_of_le hn, Nat.sub_self]

/-- The reader that stands at `n` has not reached what was dropped and then what is kept. -/
theorem Keeps.drop_eq (h : Keeps b log) (n : Nat) :
    log.drop n = (log.drop n).take (b.oldest - n) ++ b.ahead n := by
  rcases Nat.le_total b.oldest n with hn | hn
  · rw [h.ahead_eq hn, Nat.sub_eq_zero_of_le hn]
    rfl
  · rw [h.ahead_of_le hn, ← Nat.add_sub_cancel' hn, ← List.drop_drop, Nat.add_sub_cancel_left,
      List.take_append_drop]

/-! ## Turns and loops -/

theorem look_filter (b : Bus) (s : Subscriber) : (b.look s).1.filter = s.filter := by
  unfold look
  split
  · rfl
  · split <;> rfl

theorem next_filter (b : Bus) (s : Subscriber) : (b.next s).1.filter = s.filter := by
  unfold next
  split
  · rfl
  · split <;> rfl

theorem look_behind (hlag : s.next < b.oldest) :
    b.look s = ({ s with next := b.oldest }, some (.lagged (b.oldest - s.next))) := by
  rw [look, if_pos hlag]

theorem Keeps.look_event (h : Keeps b log) (hs : b.oldest ≤ s.next) (hlt : s.next < log.length) :
    b.look s = ({ s with next := s.next + 1 },
      if s.filter.accepts log[s.next] then some (.event log[s.next]) else none) := by
  rw [look, if_neg (Nat.not_lt.2 hs), h.ahead_eq hs, List.drop_eq_getElem_cons hlt]

theorem Keeps.look_end (h : Keeps b log) (hs : b.oldest ≤ s.next) (hend : s.next = log.length) :
    b.look s = (s, some (if b.closed then .closed else .nothing)) := by
  rw [look, if_neg (Nat.not_lt.2 hs), h.ahead_eq hs, hend, List.drop_length]

theorem next_behind (hlag : s.next < b.oldest) :
    b.next s = ({ s with next := b.oldest }, .lagged (b.oldest - s.next)) := by
  rw [next, if_pos hlag]

theorem Keeps.next_accepted (h : Keeps b log) (hs : b.oldest ≤ s.next) (hlt : s.next < log.length)
    (he : s.filter.accepts log[s.next] = true) :
    b.next s = ({ s with next := s.next + 1 }, .event log[s.next]) := by
  have hstop : log.length - (log.drop (s.next + 1)).length = s.next + 1 := by
    rw [List.length_drop]
    omega
  rw [next, if_neg (Nat.not_lt.2 hs), h.ahead_eq hs, List.drop_eq_getElem_cons hlt,
    List.dropWhile_cons_of_neg (by simp [he]), h.sent]
  simp only [hstop]

theorem Keeps.next_refused (h : Keeps b log) (hs : b.oldest ≤ s.next) (hlt : s.next < log.length)
    (he : s.filter.accepts log[s.next] = false) :
    b.next s = b.next { s with next := s.next + 1 } := by
  have hahead : (b.ahead s.next).dropWhile (!s.filter.accepts ·) =
      (b.ahead (s.next + 1)).dropWhile (!s.filter.accepts ·) := by
    rw [h.ahead_eq hs, h.ahead_eq (Nat.le_succ_of_le hs), List.drop_eq_getElem_cons hlt,
      List.dropWhile_cons_of_pos (by simp [he])]
  unfold next
  rw [if_neg (Nat.not_lt.2 hs), if_neg (Nat.not_lt.2 (Nat.le_succ_of_le hs)), hahead]

theorem Keeps.next_end (h : Keeps b log) (hs : b.oldest ≤ s.next) (hend : s.next = log.length) :
    b.next s = (s, if b.closed then .closed else .nothing) := by
  have hahead : b.ahead s.next = [] := by rw [h.ahead_eq hs, hend, List.drop_length]
  rw [next, if_neg (Nat.not_lt.2 hs), hahead, List.dropWhile_nil, h.sent, ← hend]

theorem loop_next (h : Keeps b log) (hs : s.next ≤ log.length) : Loop b s (b.next s) := by
  by_cases hlag : s.next < b.oldest
  · rw [next_behind hlag]
    exact .done (look_behind hlag)
  · have hreach : b.oldest ≤ s.next := Nat.le_of_not_lt hlag
    clear hlag
    -- by induction on how many events are ahead, which the turns take one by one
    induction hleft : log.length - s.next generalizing s with
    | zero =>
      have hend : s.next = log.length := by omega
      rw [h.next_end hreach hend]
      exact .done (h.look_end hreach hend)
    | succ n ih =>
      have hlt : s.next < log.length := by omega
      have hlook := h.look_event hreach hlt
      cases he : s.filter.accepts log[s.next] with
      | true =>
        rw [h.next_accepted hreach hlt he]
        exact .done (by rw [hlook, if_pos he])
      | false =>
        rw [h.next_refused hreach hlt he]
        refine .again (by rw [hlook, he]; rfl) (ih hlt (Nat.le_succ_of_le hreach) ?_)
        show log.length - (s.next + 1) = n
        omega

/-! ## The trail of a reader -/

/-- The reader goes from `s` to `s'`, leaves the trail behind it and is told `news`. -/
structure Passed (log : List Event) (s s' : Subscriber) (trail : List Passage)
    (news : List Delivery) : Prop where
  filter : s'.filter = s.filter
  start : s.next ≤ log.length
  stop : s'.next ≤ log.length
  split : log.drop s.next = trail.flatMap Passage.events ++ log.drop s'.next
  news : news = trail.filterMap (Passage.told s.filter)
  lost : ∀ es, Passage.lost es ∈ trail → es ≠ []

namespace Passed

variable {trail trail' : List Passage} {news news' : List Delivery}

theorem refl (hs : s.next ≤ log.length) : Passed log s s [] [] where
  filter := rfl
  start := hs
  stop := hs
  split := rfl
  news := rfl
  lost := by simp

theorem trans (h : Passed log s s' trail news) (h' : Passed log s' s'' trail' news') :
    Passed log s s'' (trail ++ trail') (news ++ news') where
  filter := h'.filter.trans h.filter
  start := h.start
  stop := h'.stop
  split := by rw [h.split, h'.split, List.flatMap_append, List.append_assoc]
  news := by rw [h.news, h'.news, h.filter, List.filterMap_append]
  lost es hes := (List.mem_append.1 hes).elim (h.lost es) (h'.lost es)

/-- What is passed on later changes nothing behind the reader. -/
theorem extend (h : Passed log s s' trail news) (more : List Event) :
    Passed (log ++ more) s s' trail news where
  filter := h.filter
  start := by rw [List.length_append]; exact Nat.le_add_right_of_le h.start
  stop := by rw [List.length_append]; exact Nat.le_add_right_of_le h.stop
  split := by
    rw [List.drop_append_of_le_length h.start, List.drop_append_of_le_length h.stop, h.split,
      List.append_assoc]
  news := h.news
  lost := h.lost

end Passed

theorem look_passed (h : Keeps b log) (hs : s.next ≤ log.length) :
    ∃ trail, Passed log s (b.look s).1 trail ((b.look s).2.toList.filter Delivery.isNews) := by
  by_cases hlag : s.next < b.oldest
  · have hold : b.oldest ≤ log.length := by
      rw [h.oldest_eq]
      exact Nat.sub_le ..
    have hlen : ((log.drop s.next).take (b.oldest - s.next)).length = b.oldest - s.next := by
      rw [List.length_take, List.length_drop]
      omega
    rw [look_behind hlag]
    refine ⟨[.lost ((log.drop s.next).take (b.oldest - s.next))], rfl, hs, hold, ?_, ?_, ?_⟩
    · simpa [Passage.events, h.ahead_of_le (Nat.le_of_lt hlag)] using h.drop_eq s.next
    · simp [Passage.told, hlen, Delivery.isNews]
    · intro es hes hnil
      rw [Passage.lost.inj (List.mem_singleton.1 hes), ← List.length_eq_zero_iff, hlen] at hnil
      omega
  · have hreach : b.oldest ≤ s.next := Nat.le_of_not_lt hlag
    rcases Nat.lt_or_eq_of_le hs with hlt | hend
    · rw [h.look_event hreach hlt]
      refine ⟨[.taken log[s.next]], rfl, hs, hlt, List.drop_eq_getElem_cons hlt, ?_, by simp⟩
      cases he : s.filter.accepts log[s.next] <;> simp [Passage.told, he, Delivery.isNews]
    · have hnone : [if b.closed then Delivery.closed else .nothing].filter Delivery.isNews = [] := by
        split <;> rfl
      rw [h.look_end hreach hend]
      exact ⟨[], hnone ▸ .refl hs⟩

theorem Loop.passed {r : Subscriber × Delivery} (hloop : Loop b s r) (h : Keeps b log)
    (hs : s.next ≤ log.length) :
    ∃ trail, Passed log s r.1 trail ([r.2].filter Delivery.isNews) := by
  induction hloop with
  | done hlook =>
    obtain ⟨trail, hpassed⟩ := look_passed h hs
    rw [hlook] at hpassed
    exact ⟨trail, hpassed⟩
  | again hlook _ ih =>
    obtain ⟨trail, hpassed⟩ := look_passed h hs
    rw [hlook] at hpassed
    obtain ⟨trail', hpassed'⟩ := ih hpassed.stop
    exact ⟨trail ++ trail', hpassed.trans hpassed'⟩

end Bus

end Noticeboard
