import Noticeboard.Bus
import Noticeboard.Proofs.Collections

/-!
# The counts of listeners

The bus counts its subscribers by the written form of their topics. Two lists of topics have the same
written form only when they are the same (`topicsText_inj`), so each count is that of the live
subscribers with just these topics. No count is zero, and nothing else is counted (`Counted`). All
that a bus does keeps this.
-/

namespace Noticeboard

/-! ## The written form of topics -/

/-- What stands after the first topic in a written list. -/
def Topic.restText : List Topic → List Char
  | [] => [']']
  | t :: ts => ',' :: ' ' :: (t.name.toList ++ restText ts)

/-- No name of a topic is the beginning of another one. -/
theorem Topic.name_append_inj {t u : Topic} {l l' : List Char}
    (h : t.name.toList ++ l = u.name.toList ++ l') : t = u ∧ l = l' := by
  cases t <;> cases u <;> simp [name] at h ⊢ <;> exact h

theorem Topic.restText_inj {ts us : List Topic} (h : restText ts = restText us) : ts = us := by
  induction ts generalizing us with
  | nil =>
    cases us with
    | nil => rfl
    | cons u us => simp [restText] at h
  | cons t ts ih =>
    cases us with
    | nil => simp [restText] at h
    | cons u us =>
      simp only [restText, List.cons.injEq, true_and] at h
      obtain ⟨htopic, hrest⟩ := name_append_inj h
      rw [htopic, ih hrest]

/-- A written list of topics, after the bracket that opens it. -/
def Topic.listText : List Topic → List Char
  | [] => [']']
  | t :: ts => t.name.toList ++ restText ts

theorem Topic.listText_inj {ts us : List Topic} (h : listText ts = listText us) : ts = us := by
  cases ts with
  | nil =>
    cases us with
    | nil => rfl
    | cons u us => cases u <;> simp [listText, name] at h
  | cons t ts =>
    cases us with
    | nil => cases t <;> simp [listText, name] at h
    | cons u us =>
      obtain ⟨htopic, hrest⟩ := name_append_inj h
      rw [htopic, restText_inj hrest]

theorem Topic.toList_intercalate_name (ts : List Topic) :
    (", ".intercalate (ts.map (·.name)) ++ "]").toList = listText ts := by
  induction ts with
  | nil => simp [listText]
  | cons t ts ih =>
    cases ts with
    | nil => simp [listText, restText]
    | cons u us =>
      have hcons : ", ".intercalate ((t :: u :: us).map (·.name)) =
          t.name ++ ", " ++ ", ".intercalate ((u :: us).map (·.name)) := by
        simp only [List.map_cons, String.intercalate_cons_cons]
      rw [hcons, String.append_assoc, String.toList_append, ih]
      simp [listText, restText]

namespace Filter

variable {f g : Filter}

theorem toList_topicsText (f : Filter) : f.topicsText.toList = '[' :: Topic.listText f.topics := by
  rw [topicsText, String.append_assoc, String.toList_append, Topic.toList_intercalate_name]
  rfl

theorem topicsText_inj (h : f.topicsText = g.topicsText) : f.topics = g.topics := by
  have hlist := congrArg String.toList h
  rw [toList_topicsText, toList_topicsText] at hlist
  exact Topic.listText_inj (List.cons.inj hlist).2

theorem topicsText_eq_iff : f.topicsText = g.topicsText ↔ f.topics = g.topics := by
  refine ⟨topicsText_inj, fun h => ?_⟩
  rw [topicsText, topicsText, h]

end Filter

/-! ## The counts -/

namespace Bus

/-- How many subscribers listen to these topics. -/
def listeners (b : Bus) (topics : List Topic) : Nat :=
  (b.subscribers.filter fun _ s => s.filter.topics = topics).size

/-- Tickets are fresh, and the counts are those of the subscribers. -/
structure Counted (b : Bus) : Prop where
  fresh : ∀ t ∈ b.subscribers, t < b.nextTicket
  count : ∀ f : Filter, b.byTopics[f.topicsText]? =
    if b.listeners f.topics = 0 then none else some (b.listeners f.topics)
  written : ∀ text ∈ b.byTopics, ∃ f : Filter, text = f.topicsText

/-- Another subscriber in the place of the ticket. -/
def place (b : Bus) (t : Ticket) (s : Subscriber) : Bus :=
  { b with subscribers := b.subscribers.insert t s }

variable {b : Bus} {f : Filter} {s s' : Subscriber} {t : Ticket}

theorem getElem?_countUp (counts : Std.ExtTreeMap String Nat) (text a : String) :
    (countUp counts text)[a]? =
      if text = a then some (counts[text]?.getD 0 + 1) else counts[a]? := by
  rw [countUp, Std.ExtTreeMap.getElem?_alter]
  simp only [Std.LawfulEqOrd.compare_eq_iff_eq]

theorem getElem?_countDown (counts : Std.ExtTreeMap String Nat) (text a : String) :
    (countDown counts text)[a]? =
      if text = a then counts[text]?.bind (fun n => if n ≤ 1 then none else some (n - 1))
      else counts[a]? := by
  rw [countDown, Std.ExtTreeMap.getElem?_alter]
  simp only [Std.LawfulEqOrd.compare_eq_iff_eq]

theorem Counted.entry (h : Counted b) {text : String} {n : Nat} (hn : b.byTopics[text]? = some n) :
    n ≠ 0 ∧ ∃ f : Filter, text = f.topicsText := by
  obtain ⟨f, rfl⟩ := h.written text (mem_iff_getElem?.2 ⟨n, hn⟩)
  refine ⟨fun hzero => ?_, f, rfl⟩
  rw [h.count f] at hn
  split at hn
  · simp at hn
  · next hpos => exact hpos ((Option.some.inj hn).trans hzero)

theorem counted_new (capacity : Nat) : Counted (new capacity) where
  fresh := by simp [new]
  count f := by
    have hnone : (new capacity).listeners f.topics = 0 :=
      Std.ExtTreeMap.eq_empty_iff_size_eq_zero.1 (by simp [new, Std.ExtTreeMap.filter_eq_empty_iff])
    rw [if_pos hnone]
    rfl
  written := by simp [new]

theorem Counted.subscribe (h : Counted b) (f : Filter) : Counted (b.subscribe f).1 := by
  have hnew : b.nextTicket ∉ b.subscribers := fun hin => Nat.lt_irrefl _ (h.fresh _ hin)
  have hlisteners (topics : List Topic) : (b.subscribe f).1.listeners topics =
      b.listeners topics + if f.topics = topics then 1 else 0 := by
    rw [listeners, Bus.subscribe, size_filter_insert hnew]
    simp [listeners]
  refine ⟨fun t ht => ?_, fun g => ?_, fun text htext => ?_⟩
  · rcases Std.ExtTreeMap.mem_insert.1 ht with heq | hin
    · rw [← Std.LawfulEqOrd.eq_of_compare heq]
      exact Nat.lt_succ_self _
    · exact Nat.lt_succ_of_lt (h.fresh t hin)
  · rw [hlisteners]
    show (countUp b.byTopics f.topicsText)[g.topicsText]? = _
    simp only [getElem?_countUp, h.count, Filter.topicsText_eq_iff]
    by_cases hfg : f.topics = g.topics
    · rw [if_pos hfg, if_pos hfg, if_neg (Nat.succ_ne_zero _), hfg]
      split
      · next hzero => rw [hzero]; rfl
      · rfl
    · rw [if_neg hfg, if_neg hfg, Nat.add_zero]
  · obtain ⟨n, hn⟩ := mem_iff_getElem?.1 htext
    change (countUp b.byTopics f.topicsText)[text]? = some n at hn
    rw [getElem?_countUp] at hn
    split at hn
    · next heq => exact ⟨f, heq.symm⟩
    · exact h.written text (mem_iff_getElem?.2 ⟨n, hn⟩)

theorem Counted.unsubscribe (h : Counted b) (t : Ticket) : Counted (b.unsubscribe t) := by
  cases hs : b.subscribers[t]? with
  | none =>
    have hsame : b.unsubscribe t = b := by rw [Bus.unsubscribe, hs]
    rwa [hsame]
  | some s =>
    have hleft : b.unsubscribe t = { b with
        subscribers := b.subscribers.erase t
        byTopics := countDown b.byTopics s.filter.topicsText } := by rw [Bus.unsubscribe, hs]
    have hlisteners (topics : List Topic) : b.listeners topics =
        (b.unsubscribe t).listeners topics + if s.filter.topics = topics then 1 else 0 := by
      rw [listeners, size_filter_erase hs, hleft]
      simp [listeners]
    refine ⟨fun u hu => ?_, fun g => ?_, fun text htext => ?_⟩
    · rw [hleft] at hu ⊢
      exact h.fresh u (Std.ExtTreeMap.mem_of_mem_erase hu)
    · have hbyTopics : (b.unsubscribe t).byTopics = countDown b.byTopics s.filter.topicsText := by
        rw [hleft]
      simp only [hbyTopics, getElem?_countDown, h.count, Filter.topicsText_eq_iff]
      by_cases hsg : s.filter.topics = g.topics
      · rw [if_pos hsg, hsg, hlisteners g.topics, if_pos hsg, if_neg (Nat.succ_ne_zero _)]
        simp only [Option.bind_some, Nat.add_sub_cancel]
        cases (b.unsubscribe t).listeners g.topics with
        | zero => rfl
        | succ n => rw [if_neg (by omega), if_neg (by omega)]
      · rw [if_neg hsg, hlisteners g.topics, if_neg hsg, Nat.add_zero]
    · obtain ⟨n, hn⟩ := mem_iff_getElem?.1 htext
      rw [hleft] at hn
      change (countDown b.byTopics s.filter.topicsText)[text]? = some n at hn
      rw [getElem?_countDown] at hn
      split at hn
      · next heq => exact ⟨s.filter, heq.symm⟩
      · exact h.written text (mem_iff_getElem?.2 ⟨n, hn⟩)

theorem Counted.publish (h : Counted b) (e : Event) : Counted (b.publish e).1 := by
  unfold Bus.publish
  dsimp only
  split <;> exact ⟨h.fresh, h.count, h.written⟩

theorem Counted.place (h : Counted b) (hs : b.subscribers[t]? = some s)
    (hfilter : s'.filter = s.filter) : Counted (b.place t s') where
  fresh u hu := h.fresh u (mem_of_mem_replace hs hu)
  count f := by
    have hlisteners : (b.place t s').listeners f.topics = b.listeners f.topics := by
      rw [listeners, listeners, Bus.place]
      exact size_filter_replace hs (by rw [hfilter])
    rw [hlisteners]
    exact h.count f
  written := h.written

end Bus

end Noticeboard
