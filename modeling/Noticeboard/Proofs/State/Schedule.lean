import Noticeboard.Engine
import Noticeboard.Proofs.Collections

/-!
# Schedules

Messages are received and identities deleted by calls that may overlap. A call holds at most one
board at a time: a received message is filed on its boards one after another, and a deletion, once
the identity counts as deleted, lists the boards and sweeps them one after another. Between two such
steps any other call may go on. `Reaches` says which boards such a schedule can lead to.

Whatever the order of these steps, they come to an end (`wellFounded_step`). Calls of an engine that
are made one after another are one schedule of many (`reaches_engine`).
-/

namespace Noticeboard

/-- A call from outside. -/
inductive Call where
  | receive (m : Message) (announcedBy : Option IdentityId)
  | delete (identity : IdentityId)
deriving DecidableEq

namespace Engine

/-- An engine after one call. -/
def call (e : Engine) : Call → Engine
  | .receive m announcedBy => (e.receive m announcedBy).1
  | .delete identity => (e.deleteIdentity identity).1

/-- An engine after several calls, one after another. -/
def calls (e : Engine) (calls : List Call) : Engine := calls.foldl call e

end Engine

namespace Schedule

/-- What is left to do of a call. -/
inductive Task where
  /-- The message has passed the check and goes onto these boards. -/
  | file (m : Message) (rest : List BoardName)
  /-- The first of the boards exists but is not locked yet. -/
  | enter (m : Message) (name : BoardName) (rest : List BoardName)
  /-- The identity counts as deleted, and the boards are not listed yet. -/
  | list (identity : IdentityId)
  /-- These boards are to be swept. -/
  | sweep (identity : IdentityId) (rest : List BoardName)

/-- The boards and deleted identities that the calls share, and the calls under way. -/
structure Config where
  boards : BoardMap Board
  deleted : Std.ExtTreeSet IdentityId
  tasks : List Task

/-- Nothing has happened yet. -/
def Config.initial : Config := ⟨∅, ∅, []⟩

/-- A call begins. A received message may be refused, which leaves the boards alone. -/
def Config.begin (limits : Limits) (c : Config) : Call → Config
  | .receive m announcedBy =>
    if c.deleted.contains m.author then c
    else
      match m.validate announcedBy limits with
      | .error _ => c
      | .ok () => { c with tasks := c.tasks ++ [.file m m.boards.toList] }
  | .delete identity =>
    { c with deleted := c.deleted.insert identity, tasks := c.tasks ++ [.list identity] }

/-- One step of a task, and what is left of it. Under the lock of a board the author is checked
again. -/
def Task.advance (boards : BoardMap Board) (deleted : Std.ExtTreeSet IdentityId) :
    Task → BoardMap Board × Option Task
  | file _ [] => (boards, none)
  | file m (name :: rest) => (boards.insertIfNew name (.empty name), some (.enter m name rest))
  | enter m name rest =>
    if deleted.contains m.author then (boards, none)
    else
      match (boards[name]?.getD (.empty name)).ingest m with
      | .ok (g, _) => (boards.insert name g, some (.file m rest))
      | .error _ => (boards, none)
  | list identity => (boards, some (.sweep identity boards.keys))
  | sweep _ [] => (boards, none)
  | sweep identity (name :: rest) =>
    (boards.modify name fun g => (g.removeAuthor identity).1, some (.sweep identity rest))

/-- One of the calls under way makes a step. -/
inductive Step : Config → Config → Prop
  | advance (boards : BoardMap Board) (deleted : Std.ExtTreeSet IdentityId)
      (before after : List Task) (task : Task) :
      Step ⟨boards, deleted, before ++ task :: after⟩
        ⟨(task.advance boards deleted).1, deleted,
          before ++ (task.advance boards deleted).2.toList ++ after⟩

/-- The calls, in the order in which they began, can lead to a configuration. -/
inductive Reaches (limits : Limits) : List Call → Config → Prop
  | initial : Reaches limits [] .initial
  | begin {calls : List Call} {c : Config} (call : Call) : Reaches limits calls c →
      Reaches limits (calls ++ [call]) (c.begin limits call)
  | step {calls : List Call} {c c' : Config} : Reaches limits calls c → Step c c' →
      Reaches limits calls c'

/-! ## Every schedule ends -/

/-- The task is still to find out which boards there are. -/
def Task.isListing : Task → Bool
  | list _ => true
  | _ => false

/-- How many steps a task takes at most, if it is not listing. -/
def Task.weight : Task → Nat
  | file _ rest => 2 * rest.length + 1
  | enter _ _ rest => 2 * rest.length + 2
  | list _ => 0
  | sweep _ rest => rest.length + 1

theorem Task.advance_lighter (boards : BoardMap Board) (deleted : Std.ExtTreeSet IdentityId)
    (task : Task) : (task.isListing = true ∨ 0 < task.weight) ∧
      ∀ left ∈ (task.advance boards deleted).2,
        left.isListing = false ∧ (task.isListing = true ∨ left.weight < task.weight) := by
  cases task with
  | file m rest => cases rest <;> simp [advance, isListing, weight]; omega
  | enter m name rest =>
    rw [advance]
    split
    · simp [isListing, weight]
    · split <;> simp [isListing, weight]
  | list identity => simp [advance, isListing]
  | sweep identity rest => cases rest <;> simp [advance, isListing, weight]

/-- Calls that have begun come to an end, in whatever order they make their steps. -/
theorem wellFounded_step : WellFounded fun c' c : Config => Step c c' := by
  refine Subrelation.wf ?_ (InvImage.wf
    (fun c : Config => (c.tasks.countP Task.isListing, (c.tasks.map Task.weight).sum))
    (Prod.lex Nat.lt_wfRel Nat.lt_wfRel).wf)
  rintro c' c ⟨boards, deleted, before, after, task⟩
  obtain ⟨hlisting, hleft⟩ := task.advance_lighter boards deleted
  simp only [InvImage, WellFoundedRelation.rel, Prod.lex_def]
  simp only [List.countP_append, List.countP_cons, List.map_append, List.map_cons, List.sum_append,
    List.sum_cons]
  cases hnext : (task.advance boards deleted).2 with
  | none =>
    cases hlist : task.isListing with
    | true =>
      left
      simp
    | false =>
      have hweight := hlisting.resolve_left (by simp [hlist])
      right
      simp
      omega
  | some left =>
    obtain ⟨hnot, hlight⟩ := hleft left hnext
    cases hlist : task.isListing with
    | true =>
      left
      simp [hnot]
    | false =>
      have hweight := hlight.resolve_left (by simp [hlist])
      right
      simp [hnot]
      omega

/-! ## One call after another -/

section Sequential

variable {limits : Limits} {calls : List Call} {boards : BoardMap Board}
  {deleted : Std.ExtTreeSet IdentityId} {m : Message} {name : BoardName} {rest : List BoardName}
  {identity : IdentityId} {s : State}

/-- The only call under way makes a step. -/
theorem Reaches.alone {task : Task} (h : Reaches limits calls ⟨boards, deleted, [task]⟩) :
    Reaches limits calls
      ⟨(task.advance boards deleted).1, deleted, (task.advance boards deleted).2.toList⟩ := by
  have hstep := h.step (.advance boards deleted [] [] task)
  simpa using hstep

theorem modify_eq (boards : BoardMap Board) (name : BoardName) (f : Board → Board) :
    boards.modify name f = boards[name]?.elim boards fun g => boards.insert name (f g) := by
  refine Std.ExtTreeMap.ext_getElem? fun b => ?_
  rw [Std.ExtTreeMap.getElem?_modify]
  cases hg : boards[name]? with
  | none => grind
  | some g =>
    rw [Option.elim_some, Std.ExtTreeMap.getElem?_insert]
    grind

/-- Filing a message on the next of its boards without a pause. -/
theorem Reaches.fileOn
    (h : Reaches limits calls ⟨s.boards, s.deleted, [.file m (name :: rest)]⟩) :
    Reaches limits calls ⟨(s.fileOn m name).1.boards, (s.fileOn m name).1.deleted,
      match (s.fileOn m name).2 with
      | .ok _ => [.file m rest]
      | .error _ => []⟩ := by
  have henter : Reaches limits calls
      ⟨s.boards.insertIfNew name (.empty name), s.deleted, [.enter m name rest]⟩ := h.alone
  have hfiled := henter.alone
  simp only [Task.advance] at hfiled
  simp only [State.fileOn, State.isDeleted, State.board]
  generalize s.boards.insertIfNew name (.empty name) = created at hfiled ⊢
  generalize (created[name]?.getD (.empty name)).ingest m = r at hfiled ⊢
  by_cases hauthor : s.deleted.contains m.author = true
  · simpa [hauthor] using hfiled
  · cases r <;> simpa [hauthor] using hfiled

/-- Filing a message on its boards without a pause. -/
theorem Reaches.fileOnAll (h : Reaches limits calls ⟨s.boards, s.deleted, [.file m rest]⟩) :
    Reaches limits calls
      ⟨(s.fileOnAll m rest).1.boards, (s.fileOnAll m rest).1.deleted, []⟩ := by
  induction rest generalizing s with
  | nil => exact h.alone
  | cons name rest ih =>
    have hfiled := h.fileOn
    rw [State.fileOnAll]
    cases hfile : s.fileOn m name with
    | mk filed r =>
      rw [hfile] at hfiled
      cases r with
      | ok report => exact ih hfiled
      | error e => exact hfiled

/-- Sweeping the listed boards without a pause. -/
theorem Reaches.sweepAll (hrest : rest.Nodup)
    (h : Reaches limits calls ⟨boards, deleted, [.sweep identity rest]⟩) :
    ∃ boards', Reaches limits calls ⟨boards', deleted, []⟩ ∧ ∀ b, boards'[b]? =
      if b ∈ rest then boards[b]?.map fun g => (g.removeAuthor identity).1 else boards[b]? := by
  induction rest generalizing boards with
  | nil => exact ⟨boards, h.alone, fun b => by simp⟩
  | cons name rest ih =>
    obtain ⟨hname, hrest⟩ := List.nodup_cons.1 hrest
    obtain ⟨boards', hreaches, hboards⟩ := ih hrest h.alone
    refine ⟨boards', hreaches, fun b => ?_⟩
    rw [hboards, Task.advance]
    simp only [Std.ExtTreeMap.getElem?_modify, Std.LawfulEqOrd.compare_eq_iff_eq, List.mem_cons]
    grind

theorem boards_deliver (s : State) (m : Message) :
    (s.deliver m).1.boards = (s.fileOnAll m m.boards.toList).1.boards ∧
      (s.deliver m).1.deleted = (s.fileOnAll m m.boards.toList).1.deleted := by
  rw [State.deliver]
  cases hfiled : s.fileOnAll m m.boards.toList with
  | mk s' r => cases r <;> exact ⟨rfl, rfl⟩

/-- A received message, taken at once. -/
theorem Reaches.receive (m : Message) (announcedBy : Option IdentityId)
    (h : Reaches limits calls ⟨s.boards, s.deleted, []⟩) :
    Reaches limits (calls ++ [.receive m announcedBy])
      ⟨(s.receive limits m announcedBy).1.boards,
        (s.receive limits m announcedBy).1.deleted, []⟩ := by
  have hbegin := h.begin (.receive m announcedBy)
  simp only [Config.begin] at hbegin
  rw [State.receive, State.isDeleted]
  cases hauthor : s.deleted.contains m.author with
  | true => simpa [hauthor] using hbegin
  | false =>
    cases hvalid : m.validate announcedBy limits with
    | error e => simpa [hauthor, hvalid, State.settle] using hbegin
    | ok u =>
      obtain ⟨hboards, hdeleted⟩ := boards_deliver s m
      simp only [hauthor, hvalid, Bool.false_eq_true, if_false, List.nil_append] at hbegin ⊢
      rw [hboards, hdeleted]
      exact hbegin.fileOnAll

/-- A deletion, carried out at once. -/
theorem Reaches.delete (identity : IdentityId)
    (h : Reaches limits calls ⟨s.boards, s.deleted, []⟩) :
    Reaches limits (calls ++ [.delete identity])
      ⟨(s.deleteIdentity identity).1.boards, (s.deleteIdentity identity).1.deleted, []⟩ := by
  have hlist : Reaches limits (calls ++ [.delete identity])
      ⟨s.boards, s.deleted.insert identity, [.list identity]⟩ := h.begin (.delete identity)
  obtain ⟨boards, hreaches, hboards⟩ := hlist.alone.sweepAll (nodup_keys s.boards)
  have hsame : boards = (s.deleteIdentity identity).1.boards := by
    refine Std.ExtTreeMap.ext_getElem? fun b => ?_
    simp only [hboards, State.deleteIdentity, Task.advance, Std.ExtTreeMap.getElem?_map,
      Std.ExtTreeMap.mem_keys, Option.map_map, Function.comp_def]
    split
    · rfl
    · next hb => rw [Std.ExtTreeMap.getElem?_eq_none hb, Option.map_none]
  exact hsame ▸ hreaches

/-- An engine that goes on taking calls goes on with its schedule. -/
theorem Reaches.engine_calls {e : Engine} (later : List Call)
    (h : Reaches e.config.validation calls ⟨e.state.boards, e.state.deleted, []⟩) :
    Reaches e.config.validation (calls ++ later)
      ⟨(e.calls later).state.boards, (e.calls later).state.deleted, []⟩ := by
  induction later generalizing calls e with
  | nil => simpa [Engine.calls] using h
  | cons call later ih =>
    have hcall : Reaches e.config.validation (calls ++ [call])
        ⟨(e.call call).state.boards, (e.call call).state.deleted, []⟩ := by
      cases call with
      | receive m announcedBy => exact h.receive m announcedBy
      | delete identity => exact h.delete identity
    have hconfig : (e.call call).config = e.config := by cases call <;> rfl
    have hlater := ih (hconfig ▸ hcall)
    rw [hconfig, List.append_assoc] at hlater
    exact hlater

/-- An engine that takes calls one after another follows a schedule. -/
theorem reaches_engine (config : EngineConfig) (trust : Trust) (now : Timestamp)
    (calls : List Call) :
    Reaches config.validation calls
      ⟨((Engine.new config trust now).calls calls).state.boards,
        ((Engine.new config trust now).calls calls).state.deleted, []⟩ :=
  Reaches.engine_calls (e := .new config trust now) calls .initial

end Sequential

end Schedule

end Noticeboard
