import Noticeboard.Proofs.Board.Arrival
import Noticeboard.Proofs.Board.Departure

/-!
# Runs of a board

`Board.run` applies arrivals, removals and deleted roots in any order to an empty board. Every step
keeps the board coherent (`Coherent.apply`), hence so does every run, and a coherent board equals the
one that `Board.rebuild` makes of its messages and deleted roots (`Coherent.eq_rebuild`). What a run
leaves therefore does not depend on the order of its steps.
-/

namespace Noticeboard

namespace Board

variable {g g' : Board} {m : Message} {id c p k : MessageId} {l ms : List Message}
  {roots : List MessageId}

/-! ## Rebuilding -/

/-- Filing several messages that agree with the messages of some board `ms`. -/
theorem Coherent.foldl_ingested {stored : IdMap Message} (h : g.Coherent)
    (hg : ∀ (q : MessageId) (x : Message), g.messages[q]? = some x → stored[q]? = some x)
    (hl : ∀ x ∈ l, stored[x.id]? = some x ∧ x.targets g.name = true ∧ x.namesItself = false) :
    let g' := l.foldl Board.ingested g
    g'.Coherent ∧ g'.name = g.name ∧
      (∀ (q : MessageId) (x : Message),
        g'.messages[q]? = some x ↔ g.messages[q]? = some x ∨ (x ∈ l ∧ x.id = q)) ∧
      ∀ k ∈ g'.deletedRoots, k ∈ g.deletedRoots := by
  induction l generalizing g with
  | nil => exact ⟨h, rfl, fun q x => by simp, fun k hk => hk⟩
  | cons m l ih =>
    obtain ⟨⟨hstored, htargets, hself⟩, hl⟩ := List.forall_mem_cons.1 hl
    have hname := name_ingested g m
    have hmessages (q : MessageId) (x : Message) :
        (g.ingested m).messages[q]? = some x ↔ g.messages[q]? = some x ∨ (x = m ∧ q = m.id) :=
      messages_ingested htargets fun y hy => Option.some.inj ((hg m.id y hy).symm.trans hstored)
    obtain ⟨hcoherent, hname', hmessages', hroots⟩ := ih (h.ingested hself) (fun q x hx => by
      rcases (hmessages q x).1 hx with hx | ⟨rfl, rfl⟩
      · exact hg q x hx
      · exact hstored) (by rwa [hname])
    refine ⟨hcoherent, hname'.trans hname, fun q x => ?_,
      fun k hk => deletedRoots_ingested (hroots k hk)⟩
    rw [List.foldl_cons, hmessages', hmessages, List.mem_cons]
    grind

/-- Marking several roots as deleted. -/
theorem Coherent.foldl_markDeletedRoot (h : g.Coherent) (roots : List MessageId) :
    let g' := roots.foldl (fun g k => (g.markDeletedRoot k).1) g
    g'.Coherent ∧ g'.name = g.name ∧ g'.messages = g.messages ∧
      ∀ q, q ∈ g'.deletedRoots ↔ q ∈ g.deletedRoots ∨ (q ∈ roots ∧ g.Rootless q) := by
  induction roots generalizing g with
  | nil => exact ⟨h, rfl, rfl, fun q => by simp⟩
  | cons k roots ih =>
    have hframe : (g.markDeletedRoot k).1.name = g.name ∧
        (g.markDeletedRoot k).1.messages = g.messages := by
      rcases markDeletedRoot_eq h.planted k with ⟨-, -, t, -, he⟩ | ⟨-, he⟩
      all_goals rw [he]; exact ⟨rfl, rfl⟩
    have hrootless (q : MessageId) : (g.markDeletedRoot k).1.Rootless q ↔ g.Rootless q := by
      simp only [Rootless, Starts, replyIn?, hframe.2]
    obtain ⟨hcoherent, hname, hmessages, hroots⟩ := ih (h.markDeletedRoot k)
    refine ⟨hcoherent, hname.trans hframe.1, hmessages.trans hframe.2, fun q => ?_⟩
    rw [List.foldl_cons, hroots, hrootless, mem_deletedRoots_markDeletedRoot h.planted,
      List.mem_cons]
    grind

/-- A deleted root is the thread of some stored reply. -/
theorem Coherent.rootless_of_mem (h : g.Coherent) (hk : k ∈ g.deletedRoots) : g.Rootless k := by
  obtain ⟨t, ht, hroot⟩ := (h.planted.deleted k).1 hk
  have hstarts : ¬ g.Starts k := by
    rw [← h.planted.stored k t ht, hroot]
    simp
  refine ⟨hstarts, ?_⟩
  obtain ⟨id, m, hm, hkey⟩ := h.populated k (by simp [Std.ExtTreeMap.mem_iff_isSome_getElem?, ht])
  cases hthread : m.thread with
  | none =>
    rw [hthread, Option.getD_none] at hkey
    exact absurd ⟨m, hkey ▸ hm, hthread⟩ hstarts
  | some q =>
    rw [hthread, Option.getD_some] at hkey
    exact ⟨id, m, replyIn?_eq_some.2 ⟨hm, hkey ▸ hthread⟩⟩

/-- Rebuilding leaves a coherent board with those of the given messages that target it, which are
among some messages `stored` with one for each id. Of the given roots those count as deleted that
have replies and are not stored. -/
theorem coherent_rebuild (stored : IdMap Message) (name : BoardName) (roots : List MessageId)
    (hms : ∀ x ∈ ms, x.targets name = true → stored[x.id]? = some x ∧ x.namesItself = false) :
    (rebuild name ms roots).Coherent ∧ (rebuild name ms roots).name = name ∧
      (∀ (q : MessageId) (x : Message), (rebuild name ms roots).messages[q]? = some x ↔
        (x ∈ ms ∧ x.targets name = true) ∧ x.id = q) ∧
      ∀ k, k ∈ (rebuild name ms roots).deletedRoots ↔
        k ∈ roots ∧ (rebuild name ms roots).Rootless k := by
  let sorted := (ms.filter (·.targets name)).mergeSort fun a b => (compare a.id b.id).isLE
  have hsorted (x : Message) : x ∈ sorted ↔ x ∈ ms ∧ x.targets name = true := by
    rw [List.mem_mergeSort, List.mem_filter]
  have hgiven : ∀ x ∈ sorted,
      stored[x.id]? = some x ∧ x.targets name = true ∧ x.namesItself = false := by
    intro x hx
    obtain ⟨hx, htargets⟩ := (hsorted x).1 hx
    exact ⟨(hms x hx htargets).1, htargets, (hms x hx htargets).2⟩
  obtain ⟨hfiled, hname, hmessages, hnone⟩ :=
    (coherent_empty name).foldl_ingested (by simp [empty]) hgiven
  obtain ⟨hrebuilt, hname', hmessages', hmarked⟩ := hfiled.foldl_markDeletedRoot roots
  have hrootless (k : MessageId) : (rebuild name ms roots).Rootless k ↔
      (sorted.foldl Board.ingested (empty name)).Rootless k := by
    simp only [Rootless, Starts, replyIn?, rebuild, hmessages', sorted]
  refine ⟨hrebuilt, hname'.trans hname, fun q x => ?_, fun k => ?_⟩
  · rw [← hsorted]
    refine (hmessages' ▸ hmessages q x).trans (or_iff_right ?_)
    simp [empty]
  · rw [hrootless]
    refine (hmarked k).trans (or_iff_right fun hk => ?_)
    have hk := hnone k hk
    simp [empty] at hk

/-- A coherent board is what rebuilding makes of its messages and deleted roots, in whatever order
and however often they are listed. -/
theorem Coherent.eq_rebuild (h : g.Coherent)
    (hms : ∀ m, (m ∈ ms ∧ m.targets g.name = true) ↔ g.messages[m.id]? = some m)
    (hroots : ∀ k, k ∈ roots ↔ k ∈ g.deletedRoots) : g = rebuild g.name ms roots := by
  obtain ⟨hrebuilt, hname, hmessages, hmarked⟩ :=
    coherent_rebuild g.messages g.name roots fun x hx htargets =>
      have hx := (hms x).1 ⟨hx, htargets⟩
      ⟨hx, h.no_self _ _ hx⟩
  have hsame : g.messages = (rebuild g.name ms roots).messages := by
    refine Std.ExtTreeMap.ext_getElem? fun q => Option.ext fun x => ?_
    rw [hmessages, hms]
    constructor
    · intro hx
      obtain rfl := h.keyed q x hx
      exact ⟨hx, rfl⟩
    · rintro ⟨hx, rfl⟩
      exact hx
  refine h.ext hrebuilt hname.symm hsame (Std.ExtTreeSet.ext_mem fun k => ?_)
  rw [hmarked, hroots, iff_self_and]
  intro hk
  have hrootless := h.rootless_of_mem hk
  simpa only [Rootless, Starts, replyIn?, hsame] using hrootless

/-! ## Runs -/

/-- What can be done to a board. -/
inductive Op where
  | ingest (m : Message)
  | remove (id : MessageId) (tombstone : Bool)
  | removeAuthor (author : IdentityId)
  | markDeletedRoot (thread : MessageId)

/-- Validation admits no message that names itself. -/
def Op.Admissible : Op → Prop
  | ingest m => m.namesItself = false
  | _ => True

instance : DecidablePred Op.Admissible := fun op => by
  cases op <;> unfold Op.Admissible <;> infer_instance

/-- One step of a run. -/
def apply (g : Board) : Op → Board
  | .ingest m => g.ingested m
  | .remove id tombstone => g.removed id tombstone
  | .removeAuthor author => (g.removeAuthor author).1
  | .markDeletedRoot thread => (g.markDeletedRoot thread).1

/-- The board after some steps. -/
def run (name : BoardName) (ops : List Op) : Board := ops.foldl apply (empty name)

theorem Coherent.apply (h : g.Coherent) {op : Op} (hop : op.Admissible) : (g.apply op).Coherent := by
  cases op with
  | ingest m => exact h.ingested hop
  | remove id tombstone => exact h.removed id tombstone
  | removeAuthor author => exact (h.removeAuthor author).1
  | markDeletedRoot thread => exact h.markDeletedRoot thread

theorem Coherent.name_apply (h : g.Coherent) (op : Op) : (g.apply op).name = g.name := by
  cases op with
  | ingest m => exact name_ingested g m
  | remove id tombstone => exact name_removed g id tombstone
  | removeAuthor author => exact (h.removeAuthor author).2.1
  | markDeletedRoot thread => exact (h.foldl_markDeletedRoot [thread]).2.1

/-- Every run leaves a coherent board of the name that it began with. -/
theorem coherent_run (name : BoardName) {ops : List Op} (hops : ∀ op ∈ ops, op.Admissible) :
    (run name ops).Coherent ∧ (run name ops).name = name := by
  suffices ∀ g : Board, g.Coherent → (ops.foldl Board.apply g).Coherent ∧
      (ops.foldl Board.apply g).name = g.name from this _ (coherent_empty name)
  induction ops with
  | nil => exact fun g h => ⟨h, rfl⟩
  | cons op ops ih =>
    obtain ⟨hop, hops⟩ := List.forall_mem_cons.1 hops
    intro g h
    obtain ⟨hcoherent, hname⟩ := ih hops (g.apply op) (h.apply hop)
    exact ⟨hcoherent, hname.trans (h.name_apply op)⟩

theorem mem_storedMessages (h : Keyed g.messages) :
    m ∈ g.storedMessages ↔ g.messages[m.id]? = some m := by
  simp only [storedMessages, List.mem_map, Prod.exists, Std.ExtTreeMap.mem_toList_iff_getElem?_eq_some]
  constructor
  · rintro ⟨id, x, hx, rfl⟩
    rwa [h id x hx]
  · exact fun hm => ⟨m.id, m, hm, rfl⟩

/-- A run leaves what rebuilding makes of its messages and deleted roots, and two runs that leave the
same of these leave the same board. -/
theorem run_eq_rebuild (name : BoardName) {ops : List Op} (hops : ∀ op ∈ ops, op.Admissible) :
    run name ops =
        rebuild name (run name ops).storedMessages (run name ops).deletedRoots.toList ∧
      ∀ ops' : List Op, (∀ op ∈ ops', op.Admissible) →
        (run name ops').messages = (run name ops).messages →
        (run name ops').deletedRoots = (run name ops).deletedRoots →
        run name ops' = run name ops := by
  obtain ⟨hcoherent, hname⟩ := coherent_run name hops
  constructor
  · have hms (m : Message) : (m ∈ (run name ops).storedMessages ∧
        m.targets (run name ops).name = true) ↔ (run name ops).messages[m.id]? = some m := by
      rw [mem_storedMessages hcoherent.keyed]
      exact and_iff_left_of_imp fun hm => hcoherent.targets _ _ hm
    have hrebuild := hcoherent.eq_rebuild hms fun k => Std.ExtTreeSet.mem_toList
    rwa [hname] at hrebuild
  · intro ops' hops' hmessages hroots
    obtain ⟨hcoherent', hname'⟩ := coherent_run name hops'
    exact hcoherent'.ext hcoherent (hname'.trans hname.symm) hmessages hroots

/-! ## A ring -/

namespace Ring

/-- The board of the ring. -/
def board : BoardName := ⟨"ring", by decide⟩

/-- One message of each author. -/
def messageId (author : Nat) : MessageId := ⟨⟨.ofNat 256 author⟩, ⟨0⟩⟩

/-- The root of the thread, which replies outlive. -/
def root : Message := .newThread (messageId 0) "ring" "" 1 {board}

/-- Two replies that name each other; the first cuts their loop. -/
def first : Message := .newReply (messageId 1) root.id (messageId 2) "" 5 {board}

def second : Message := .newReply (messageId 2) root.id (messageId 1) "" 7 {board}

def ops : List Op := [.ingest first, .ingest second, .ingest root, .removeAuthor root.author]

/-- Other steps to the same messages. -/
def otherOps : List Op := [.ingest root, .ingest second, .removeAuthor root.author, .ingest first]

end Ring

theorem ring_eq_rebuild : (∀ op ∈ Ring.ops, op.Admissible) ∧
    run Ring.board Ring.ops = rebuild Ring.board (run Ring.board Ring.ops).storedMessages
      (run Ring.board Ring.ops).deletedRoots.toList ∧
    run Ring.board Ring.otherOps = run Ring.board Ring.ops := by
  have hops : ∀ op ∈ Ring.ops, op.Admissible := by decide
  obtain ⟨hrebuild, hunique⟩ := run_eq_rebuild Ring.board hops
  exact ⟨hops, hrebuild,
    hunique Ring.otherOps (by decide) (by decide +kernel) (by decide +kernel)⟩

end Board

end Noticeboard
