import Noticeboard.Proofs.State.Restoration

/-!
# Restarts

An engine may be restarted at any time: a fresh one takes over its snapshot. Whatever the run was,
the restored state is sound (`State.Sound.restored`) and stores the same ids
(`State.Sound.isStored_restored`). The boards need not be the same if an id stood for several
messages, of which a snapshot has one.

`Engine.Stage` is an operation or a restart, and what every state of a run has, every state of
several stages has too (`Engine.stages_keep`).
-/

namespace Noticeboard

namespace ListIndex

variable {ix : ListIndex} {k : ListId} {x : MessageId} {ls : List MessageList}

/-! ## Lists put back -/

theorem onRecord_foldl_restore : OnRecord (ls.foldl restore ix).announced x k ↔
    OnRecord ix.announced x k ∨ ∃ l ∈ ls, l.id = k ∧ l.announces x = true := by
  induction ls generalizing ix with
  | nil => simp
  | cons l rest ih =>
    rw [List.foldl_cons, ih, restore, onRecord_announce, ← MessageList.announces_iff]
    simp only [List.mem_cons, exists_eq_or_imp, @eq_comm _ k, or_assoc]

theorem mem_downloaded_foldl_restore : x ∈ (ls.foldl restore ix).downloaded ↔
    x ∈ ix.downloaded ∨ ∃ l ∈ ls, ∃ r ∈ l.references, r.message = x ∧ r.downloaded = true := by
  induction ls generalizing ix with
  | nil => simp
  | cons l rest ih =>
    have hstep : x ∈ (restore ix l).downloaded ↔
        x ∈ ix.downloaded ∨ ∃ r ∈ l.references, r.message = x ∧ r.downloaded = true := by
      rw [restore, Std.ExtTreeSet.mem_insertMany_list, List.contains_iff_mem, List.mem_map]
      simp only [List.mem_filter, and_assoc, @and_comm (_ = x)]
    rw [List.foldl_cons, ih, hstep]
    simp only [List.mem_cons, exists_eq_or_imp, or_assoc]

theorem NoneIdle.foldl_restore (h : NoneIdle ix.announced) (ls : List MessageList) :
    NoneIdle (ls.foldl restore ix).announced := by
  induction ls generalizing ix with
  | nil => exact h
  | cons l rest ih => exact ih (h.announce l.id l.references)

/-- Putting back the lists of a sound index gives a sound index. What it counts as downloaded is what
the lists flag. -/
theorem Sound.restored (h : ix.Sound) :
    ((ix.lists.toList.map (·.2)).foldl restore .empty).Sound := by
  have hmem (l : MessageList) : l ∈ ix.lists.toList.map (·.2) ↔ ix.lists[l.id]? = some l := by
    simp only [List.mem_map, Prod.exists, exists_eq_right,
      Std.ExtTreeMap.mem_toList_iff_getElem?_eq_some]
    refine ⟨fun ⟨k, hl⟩ => ?_, fun hl => ⟨l.id, hl⟩⟩
    rwa [h.keyed k l hl]
  have hlists : ((ix.lists.toList.map (·.2)).foldl restore .empty).lists = ix.lists := by
    rw [lists_foldl_restore]
    exact foldl_insert_values h.keyed
  refine ⟨by rw [hlists]; exact h.keyed, by rw [hlists]; exact h.own, fun x k => ?_,
    fun k l hl r hr => ?_, noneIdle_empty.foldl_restore _⟩
  · have hnone : ¬ OnRecord empty.announced x k := by simp [OnRecord, empty]
    rw [onRecord_foldl_restore, or_iff_right hnone, hlists]
    constructor
    · rintro ⟨l, hl, rfl, hx⟩
      exact ⟨l, (hmem l).1 hl, hx⟩
    · rintro ⟨l, hl, hx⟩
      obtain rfl := h.keyed k l hl
      exact ⟨l, (hmem l).2 hl, rfl, hx⟩
  · rw [hlists] at hl
    rw [Bool.eq_iff_iff, ← Std.ExtTreeSet.mem_iff_contains, mem_downloaded_foldl_restore]
    constructor
    · intro hflag
      obtain rfl := h.keyed k l hl
      exact .inr ⟨l, (hmem l).2 hl, r, hr, rfl, hflag⟩
    · rintro (hx | ⟨l', hl', r', hr', hmessage, hflag⟩)
      · simp [empty] at hx
      · rw [h.flagged _ l' ((hmem l').1 hl') r' hr', hmessage] at hflag
        rw [h.flagged k l hl r hr, hflag]

end ListIndex

namespace State

variable {s : State} {b : BoardName} {x : MessageId} {m : Message}

/-! ## The restored state -/

/-- Every board is rebuilt from the snapshot. One that the snapshot does not name has no message. -/
theorem rebuilt_board (p : Snapshot) (b : BoardName) : ∃ roots,
    (rebuiltBoards p)[b]?.getD (.empty b) = Board.rebuild b p.messages roots := by
  rw [rebuiltBoards]
  simp only [getElem?_ofList_map]
  split
  · exact ⟨_, rfl⟩
  · next hb =>
    have hnone : p.messages.filter (·.targets b) = [] := by
      refine List.filter_eq_nil_iff.2 fun m hm htargets => hb ?_
      rw [boardsIn, mem_ofList, List.mem_append, List.mem_flatMap]
      refine .inr ⟨m, hm, ?_⟩
      rwa [Std.ExtTreeSet.mem_toList, Std.ExtTreeSet.mem_iff_contains]
    exact ⟨[], by simp [Board.rebuild, hnone]⟩

theorem board_restored (s : State) (now : Timestamp) (b : BoardName) : ∃ roots,
    (s.restored now).board b = Board.rebuild b (s.snapshot now).messages roots := by
  rw [board, restored_eq]
  exact rebuilt_board (s.snapshot now) b

namespace Sound

/-- What a restored board has: those messages found by their ids that target it. -/
theorem board_restored (h : s.Sound) (now : Timestamp) (b : BoardName) :
    ((s.restored now).board b).Coherent ∧ ((s.restored now).board b).name = b ∧
      ∀ (q : MessageId) (x : Message), ((s.restored now).board b).messages[q]? = some x ↔
        (s.message? x.id = some x ∧ x.targets b = true) ∧ x.id = q := by
  obtain ⟨roots, heq⟩ := State.board_restored s now b
  rw [heq]
  have hfound (x : Message) (hx : x ∈ (s.snapshot now).messages) (_ : x.targets b = true) :
      s.allMessages[x.id]? = some x ∧ x.namesItself = false := by
    have hx := (mem_messages_snapshot_iff h now).1 hx
    obtain ⟨-, b', hb'⟩ := stores_of_message? h hx
    exact ⟨(getElem?_allMessages s x.id).trans hx, (h.coherent b').no_self x.id x hb'⟩
  obtain ⟨hcoherent, hname, hmessages, -⟩ := Board.coherent_rebuild s.allMessages b roots hfound
  simp only [mem_messages_snapshot_iff h] at hmessages
  exact ⟨hcoherent, hname, hmessages⟩

/-- A restored state stores the same ids. -/
theorem isStored_restored (h : s.Sound) (now : Timestamp) (x : MessageId) :
    (s.restored now).isStored x = s.isStored x := by
  rw [Bool.eq_iff_iff, isStored_iff, isStored_iff_message?]
  simp only [mem_iff_getElem?, (h.board_restored now _).2.2]
  constructor
  · rintro ⟨b, m, ⟨hm, -⟩, rfl⟩
    exact ⟨m, hm⟩
  · rintro ⟨m, hm⟩
    obtain ⟨rfl, b, hb⟩ := stores_of_message? h hm
    exact ⟨b, m, ⟨hm, h.targets hb⟩, rfl⟩

theorem restored (h : s.Sound) (now : Timestamp) : (s.restored now).Sound := by
  refine ⟨fun b => (h.board_restored now b).1, fun b => (h.board_restored now b).2.1, ?_, ?_⟩
  · rw [restored_eq, restoredLists_eq]
    exact h.lists.restored.foldl_markDownloaded _
  · intro b x hx
    have hstored := isStored_iff.2 ⟨b, hx⟩
    rw [h.isStored_restored now, ← mem_ids_snapshot h now] at hstored
    rw [restored_eq, restoredLists_eq, ListIndex.mem_downloaded_foldl]
    exact .inl hstored

end Sound

end State

namespace Engine

variable {e : Engine}

/-! ## Runs with restarts -/

/-- What an engine goes through: an operation, or a restart from its own snapshot in other
surroundings. -/
inductive Stage where
  | op (op : Op)
  | restart (config : EngineConfig) (trust : Trust) (now : Timestamp)

/-- A fresh engine that has taken over the snapshot of another. -/
def restarted (e : Engine) (config : EngineConfig) (trust : Trust) (now : Timestamp) : Engine :=
  ((new config trust now).restore e.snapshot).1

/-- An engine after one stage. -/
def stage (e : Engine) : Stage → Engine
  | .op op => e.step op
  | .restart config trust now => e.restarted config trust now

/-- An engine after several stages. -/
def stages (e : Engine) (l : List Stage) : Engine := l.foldl stage e

theorem restore_snapshot_eq (e : Engine) (config : EngineConfig) (trust : Trust)
    (now : Timestamp) : ∃ counters, (new config trust now).restore e.snapshot =
      (⟨config, trust, now, e.state.restored e.now, counters⟩, .ok ()) := by
  have hrestore : (new config trust now).state.restore e.snapshot =
      (e.state.restored e.now, .ok ()) := State.restore_eq e.state e.now
  rw [restore, hrestore]
  exact ⟨_, rfl⟩

theorem state_restarted (e : Engine) (config : EngineConfig) (trust : Trust) (now : Timestamp) :
    (e.restarted config trust now).state = e.state.restored e.now := by
  obtain ⟨counters, heq⟩ := e.restore_snapshot_eq config trust now
  rw [restarted, heq]

theorem config_restarted (e : Engine) (config : EngineConfig) (trust : Trust) (now : Timestamp) :
    (e.restarted config trust now).config = config := by
  obtain ⟨counters, heq⟩ := e.restore_snapshot_eq config trust now
  rw [restarted, heq]

theorem sound_stage (h : e.state.Sound) (x : Stage) : (e.stage x).state.Sound := by
  cases x with
  | op op => exact sound_step h op
  | restart config trust now =>
    rw [stage, state_restarted]
    exact h.restored e.now

/-- What each stage keeps of a sound engine, several keep. -/
theorem stages_keep {p : Engine → Prop} {l : List Stage} (hs : e.state.Sound) (h : p e)
    (hstage : ∀ (e : Engine), ∀ x ∈ l, e.state.Sound → p e → p (e.stage x)) : p (e.stages l) := by
  induction l generalizing e with
  | nil => exact h
  | cons x l ih =>
    refine ih (sound_stage hs x) (hstage e x List.mem_cons_self hs h) fun e y hy => ?_
    exact hstage e y (List.mem_cons_of_mem x hy)

theorem sound_stages (h : e.state.Sound) (l : List Stage) : (e.stages l).state.Sound :=
  stages_keep (p := fun e => e.state.Sound) h h fun _ x _ hs _ => sound_stage hs x

end Engine

end Noticeboard
