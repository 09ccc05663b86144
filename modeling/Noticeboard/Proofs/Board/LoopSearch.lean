import Noticeboard.Proofs.Board.Merging

/-!
# The search for a loop

Named parents may lead from a message back to it, into a loop that it is not on, or to an end.
`Board.loop?` tells the first case from the others, for any messages and any start, stored or not.

To see that the search comes to an end, `Board.loopIn?` runs it for a number of rounds, with a set of
the ids that it has met: one round more than there are messages is enough (`loopIn?_eq`). What it
finds is the loop, each message once (`loopThrough_of_loop?`), so that every stored message on a loop
finds the same ones, and they agree on the one that cuts it (`exists_breaker_of_loop?`).
-/

namespace Noticeboard

open Relation

namespace Board

variable {g : Board} {ms unseen : IdMap Message} {seen : IdSet} {m x : Message}
  {t start a b : MessageId} {next : Option MessageId} {l l' : List Message} {rounds : Nat}

/-! ## Rounds -/

/-- The search from `next` on, with the ids met so far in `seen`. Nothing if it takes more than
`rounds` rounds, else the messages met on the way back to `start` if there is one. -/
def wayBackIn? (ms : IdMap Message) (thread start : MessageId) :
    Nat → IdSet → Option MessageId → Option (Option (List Message))
  | 0, _, _ => none
  | _ + 1, _, none => some none
  | rounds + 1, seen, some p =>
    if p = thread then some none
    else if p = start then some (some [])
    else
      match ms[p]? with
      | none => some none
      | some m =>
        if m.thread ≠ some thread ∨ p ∈ seen then some none
        else (wayBackIn? ms thread start rounds (seen.insert p) m.parent).map (·.map (m :: ·))

/-- The search of `loop?` in at most `rounds` rounds. -/
def loopIn? (g : Board) (rounds : Nat) (m : Message) : Option (Option (List Message)) :=
  match m.thread with
  | none => some none
  | some thread => (wayBackIn? g.messages thread m.id rounds ∅ m.parent).map (·.map (m :: ·))

theorem of_mem_unseen (hunseen : ∀ q, unseen[q]? = if q ∈ seen then none else ms[q]?)
    {p : MessageId} (hp : p ∈ unseen) : p ∉ seen ∧ ms[p]? = some unseen[p] := by
  have hfound := Std.ExtTreeMap.getElem?_eq_some_getElem hp
  rw [hunseen] at hfound
  split at hfound
  · cases hfound
  · next hnew => exact ⟨hnew, hfound⟩

/-- With more rounds than unseen messages, both searches answer alike. -/
theorem wayBackIn?_eq (hunseen : ∀ q, unseen[q]? = if q ∈ seen then none else ms[q]?) (more : Nat) :
    wayBackIn? ms t start (unseen.size + more + 1) seen next =
      some (wayBack? t start unseen next) := by
  fun_induction wayBack? t start unseen next generalizing seen with
  | case1 => rfl
  | case2 => simp [wayBackIn?]
  | case3 unseen ht => simp [wayBackIn?, ht]
  | case4 unseen p ht hs hp hthread ih =>
    obtain ⟨hnew, hms⟩ := of_mem_unseen hunseen hp
    -- The message leaves the unseen ones as its id joins the seen ones, for one round.
    have hrest : wayBackIn? ms t start (unseen.size + more) (seen.insert p) unseen[p].parent =
        some (wayBack? t start (unseen.erase p) unseen[p].parent) := by
      rw [size_eq_size_erase_add_one hp, Nat.add_right_comm]
      refine ih fun q => ?_
      rw [Std.ExtTreeMap.getElem?_erase, hunseen]
      grind
    simp [wayBackIn?, ht, hs, hms, hthread, hnew, hrest]
  | case5 unseen p ht hs hp hthread =>
    obtain ⟨-, hms⟩ := of_mem_unseen hunseen hp
    simp [wayBackIn?, ht, hs, hms, hthread]
  | case6 unseen p ht hs hp =>
    have hnone := hunseen p
    rw [Std.ExtTreeMap.getElem?_eq_none hp] at hnone
    by_cases hseen : p ∈ seen
    · cases hm : ms[p]? <;> simp [wayBackIn?, ht, hs, hm, hseen]
    · rw [if_neg hseen] at hnone
      simp [wayBackIn?, ht, hs, ← hnone]

/-- One round more than there are messages is enough to search for a loop. -/
theorem loopIn?_eq (g : Board) (m : Message) (hrounds : g.messages.size < rounds) :
    g.loopIn? rounds m = some (g.loop? m) := by
  obtain ⟨more, rfl⟩ := Nat.exists_eq_add_of_lt hrounds
  rw [loopIn?, loop?]
  cases m.thread with
  | none => rfl
  | some t =>
    have hsearch : wayBackIn? g.messages t m.id (g.messages.size + more + 1) ∅ m.parent =
        some (wayBack? t m.id g.messages m.parent) :=
      wayBackIn?_eq (fun q => (if_neg Std.ExtTreeSet.not_mem_empty).symm) more
    dsimp only
    rw [hsearch, Option.map_some, Option.bind_some]

/-! ## What is found -/

/-- The messages on the loop of named parents through `a`, each once. -/
structure LoopThrough (ms : IdMap Message) (t a : MessageId) (l : List Message) : Prop where
  nodup : (l.map (·.id)).Nodup
  mem : ∀ x, x ∈ l ↔ ms[x.id]? = some x ∧ SameLoop ms t a x.id

theorem Way.of_mem (hk : Keyed ms) (h : Way ms t start next l) (hx : x ∈ l) :
    x.id ≠ start ∧ ms[x.id]? = some x := by
  induction h with
  | back _ => cases hx
  | @step p y rest _ hs hy _ _ ih =>
    obtain rfl := hk p y hy
    rcases List.mem_cons.1 hx with rfl | hx
    · exact ⟨hs, hy⟩
    · exact ih hx

/-- A way goes through each id once. -/
theorem Way.nodup (hk : Keyed ms) (h : Way ms t start next l) : (l.map (·.id)).Nodup := by
  induction l generalizing ms next with
  | nil => exact List.nodup_nil
  | cons m rest ih =>
    cases next with
    | none => cases h
    | some p =>
      have hrest := h.erase_head
      have hp : m.id = p := by
        cases h with
        | step _ _ hm _ _ => exact hk p m hm
      refine List.nodup_cons.2 ⟨fun hmem => ?_, ih (hk.erase p) hrest⟩
      obtain ⟨y, hy, hid⟩ := List.mem_map.1 hmem
      have hstored := (hrest.of_mem (hk.erase p) hy).2
      rw [hid.trans hp, Std.ExtTreeMap.getElem?_erase_self] at hstored
      cases hstored

/-- The search finds the loop through a message, as if the message were stored. -/
theorem loopThrough_of_loop? (hk : Keyed g.messages) (ht : m.thread = some t)
    (h : g.loop? m = some l) : LoopThrough (g.messages.insert m.id m) t m.id l := by
  have hk := hk.insert m
  obtain ⟨rest, rfl, hway⟩ := (loop?_eq_some_iff ht).1 h
  have hm : (g.messages.insert m.id m)[m.id]? = some m := Std.ExtTreeMap.getElem?_insert_self
  refine ⟨List.nodup_cons.2 ⟨fun hmem => ?_, hway.nodup hk⟩, fun x => ?_⟩
  · obtain ⟨y, hy, hid⟩ := List.mem_map.1 hmem
    exact (hway.of_mem hk hy).1 hid
  · have hstored (hx : x ∈ m :: rest) : (g.messages.insert m.id m)[x.id]? = some x := by
      rcases List.mem_cons.1 hx with rfl | hx
      · exact hm
      · exact (hway.of_mem hk hx).2
    exact ⟨fun hx => ⟨hstored hx, (mem_loop? hk ht h (hstored hx)).1 hx⟩,
      fun hx => (mem_loop? hk ht h hx.1).2 hx.2⟩

/-- There is something to find just if named parents lead back to the message. -/
theorem exists_loop?_iff (hk : Keyed g.messages) (ht : m.thread = some t) :
    (∃ l, g.loop? m = some l) ↔ TransGen (Names (g.messages.insert m.id m) t) m.id m.id := by
  refine ⟨fun ⟨l, hl⟩ => ?_, fun h => isSome_loop? ht ⟨h, h⟩⟩
  obtain ⟨rest, -, hway⟩ := (loop?_eq_some_iff ht).1 hl
  have hm : (g.messages.insert m.id m)[m.id]? = some m := Std.ExtTreeMap.getElem?_insert_self
  exact (hway.reaches (hk.insert m) hm ht hm ht rfl).1

/-- All on one loop see the same messages on it. -/
theorem LoopThrough.perm (h : LoopThrough ms t a l) (h' : LoopThrough ms t b l')
    (hab : SameLoop ms t a b) : l.Perm l' := by
  refine (List.perm_ext_iff_of_nodup h.nodup.of_map h'.nodup.of_map).2 fun x => ?_
  rw [h.mem, h'.mem]
  exact and_congr_right fun _ => ⟨hab.symm.trans, hab.trans⟩

/-- Every stored message on a loop finds the same messages and the same one of them, the earliest, to
cut it. -/
theorem exists_breaker_of_loop? (hk : Keyed g.messages) (hm : g.messages[m.id]? = some m)
    (ht : m.thread = some t) (hl : g.loop? m = some l) :
    ∃ b ∈ l, ∀ x ∈ l, b.Precedes x ∧ g.breaker? x = some b.id ∧
      ∃ l', g.loop? x = some l' ∧ l'.Perm l := by
  have hloop := loopThrough_of_loop? hk ht hl
  rw [insert_self hm] at hloop
  obtain ⟨id, hid⟩ := isSome_breaker? hl
  obtain ⟨hsame, hcuts⟩ := (breaker?_stored_iff hk hm ht).1 hid
  obtain ⟨b, hb, -⟩ := hsame.symm.stored
  obtain rfl := hk id b hb
  refine ⟨b, (hloop.mem b).2 ⟨hb, hsame⟩, fun x hx => ?_⟩
  obtain ⟨hstored, hmx⟩ := (hloop.mem x).1 hx
  obtain ⟨y, hy, hthread, -⟩ := hmx.symm.stored
  cases hstored.symm.trans hy
  have hself := insert_self hstored
  obtain ⟨l', hl'⟩ := (exists_loop?_iff hk hthread).2 (hself.symm ▸ (hmx.symm.trans hmx).1)
  have hloop' := loopThrough_of_loop? hk hthread hl'
  rw [hself] at hloop'
  exact ⟨hcuts.2 b hb x.id x (hsame.symm.trans hmx) hstored,
    (breaker?_stored_iff hk hstored hthread).2 ⟨hmx.symm.trans hsame, hcuts⟩,
    l', hl', hloop'.perm hloop hmx.symm⟩

/-- Whatever messages are stored, the search from a message of thread `t` ends within one round more
than there are messages. It finds a loop just if named parents lead back to the message, and then the
messages on it, each once. If the message is stored, all others on the loop find the same messages and
the same one of them to cut it. From a message that leads into a loop without being on it, nothing is
found. -/
theorem search_finds_loop (g : Board) (hk : Keyed g.messages) (m : Message) {t : MessageId}
    (ht : m.thread = some t) :
    let ms := g.messages.insert m.id m
    (∀ rounds, g.messages.size < rounds → g.loopIn? rounds m = some (g.loop? m)) ∧
      ((∃ l, g.loop? m = some l) ↔ TransGen (Names ms t) m.id m.id) ∧
      (∀ l, g.loop? m = some l → LoopThrough ms t m.id l) ∧
      (∀ l, g.loop? m = some l → g.messages[m.id]? = some m →
        ∃ b ∈ l, ∀ x ∈ l, b.Precedes x ∧ g.breaker? x = some b.id ∧
          ∃ l', g.loop? x = some l' ∧ l'.Perm l) ∧
      ∀ a, TransGen (Names ms t) m.id a → SameLoop ms t a a → ¬ SameLoop ms t a m.id →
        g.loop? m = none := by
  intro ms
  have hfinds := exists_loop?_iff hk ht
  refine ⟨fun rounds hrounds => loopIn?_eq g m hrounds, hfinds, fun l => loopThrough_of_loop? hk ht,
    fun l hl hm => exists_breaker_of_loop? hk hm ht hl, fun a hma _ haway => ?_⟩
  refine Option.eq_none_iff_forall_ne_some.2 fun l hl => haway ?_
  have hback := hfinds.1 ⟨l, hl⟩
  exact (sameLoop_of_transGen ⟨hback, hback⟩ hma).symm

/-- The two of the ring find each other, and the first cuts the loop. The reply to the first leads
into their loop and finds nothing. -/
theorem ring_search_finds_loop :
    let g := run Ring.board (Ring.ops ++ [.ingest Ring.third])
    Keyed g.messages ∧ Ring.first.thread = some Ring.root.id ∧
      Ring.third.thread = some Ring.root.id ∧
      g.loopIn? 4 Ring.first = some (some [Ring.first, Ring.second]) ∧
      g.breaker? Ring.second = some Ring.first.id ∧
      (∃ l, g.loop? Ring.second = some l ∧ l.Perm [Ring.first, Ring.second]) ∧
      g.loop? Ring.third = none := by
  intro g
  have hk : Keyed g.messages := (coherent_run Ring.board (by decide)).1.keyed
  have hfirst : g.messages[Ring.first.id]? = some Ring.first := by decide +kernel
  have hthird : g.messages[Ring.third.id]? = some Ring.third := by decide +kernel
  have hloop : g.loop? Ring.first = some [Ring.first, Ring.second] := by decide +kernel
  obtain ⟨hrounds, hback, hthrough, hothers, -⟩ := search_finds_loop g hk Ring.first rfl
  obtain ⟨-, -, -, -, hnone⟩ := search_finds_loop g hk Ring.third rfl
  rw [insert_self hfirst] at hback hthrough
  rw [insert_self hthird] at hnone
  have hself := hback.1 ⟨_, hloop⟩
  have hmem := (hthrough _ hloop).mem
  obtain ⟨b, -, hall⟩ := hothers _ hloop hfirst
  obtain ⟨-, hcut, -⟩ := hall Ring.first (by decide)
  obtain ⟨-, hcut', hfound⟩ := hall Ring.second (by decide)
  have hbreaker : g.breaker? Ring.first = some Ring.first.id := by decide +kernel
  have hleads : Names g.messages Ring.root.id Ring.third.id Ring.first.id :=
    ⟨by decide, ⟨Ring.third, hthird, rfl, rfl⟩, Ring.first, hfirst, rfl⟩
  refine ⟨hk, rfl, rfl, ?_, hcut'.trans (hcut.symm.trans hbreaker), hfound,
    hnone _ (.single hleads) ⟨hself, hself⟩ fun hsame => ?_⟩
  · rw [hrounds 4 (by decide +kernel), hloop]
  · exact absurd ((hmem Ring.third).2 ⟨hthird, hsame⟩) (by decide)

end Board

end Noticeboard
