import Noticeboard.ThreadTree

/-!
# Boards

A board keeps every message posted to it and the threads that they form. Besides the messages and
the thread trees it keeps an index of replies by the parent they name, the threads whose root was
deleted, and the messages that name a parent but no thread.

A reply in thread `t` that names the parent `p` is placed by `Board.placement`:

* under the root if it names no parent, or `t` itself;
* under `p`, stored or not, in all other cases but two;
* under the root if `p` is stored in another thread;
* under the root if the parents named inside `t` lead from the reply back to it, and the reply is
  the earliest message on that loop.

Dates decide nothing else, since the clocks of authors disagree. `Board.loop?` follows the named
parents, and `Board.breaker?` names the message at which a loop is cut.
-/

namespace Noticeboard

/-- All threads of one board. -/
structure Board where
  name : BoardName
  messages : IdMap Message
  /-- The trees, keyed by thread. -/
  threads : IdMap ThreadTree
  /-- The replies that name a parent, keyed by the parent. -/
  repliesTo : IdMap IdSet
  /-- Threads whose root was deleted while replies remained. -/
  deletedRoots : IdSet
  /-- Messages that name a parent but no thread. -/
  inconsistent : IdSet
deriving DecidableEq

/-- What a board cannot do. -/
inductive BoardError where
  | wrongBoard (board : BoardName) (message : MessageId)
  | threadNotFound (id : MessageId)
deriving DecidableEq

/-- The text shown to the user. -/
def BoardError.message : BoardError → String
  | wrongBoard board id => "Message " ++ id.toText ++ " does not target board " ++ board.text
  | threadNotFound id => "No thread " ++ id.toText

namespace Board

/-- A board without messages. -/
def empty (name : BoardName) : Board := ⟨name, ∅, ∅, ∅, ∅, ∅⟩

/-- Whether a message is stored. -/
def contains (g : Board) (id : MessageId) : Bool := g.messages.contains id

/-- The number of stored messages. -/
def messageCount (g : Board) : Nat := g.messages.size

/-- The stored messages in the order of their ids. -/
def storedMessages (g : Board) : List Message := g.messages.toList.map (·.2)

/-- The trees in the order of their threads. -/
def trees (g : Board) : List ThreadTree := g.threads.toList.map (·.2)

/-- Whether two boards show the same. The index of replies is not shown. -/
def agreesWith (a b : Board) : Bool :=
  decide (a.name = b.name ∧ a.messages = b.messages ∧ a.threads = b.threads ∧
    a.deletedRoots = b.deletedRoots ∧ a.inconsistent = b.inconsistent)

/-- The replies that name a parent, ascending. -/
def waitingOn (g : Board) (parent : MessageId) : List MessageId :=
  match g.repliesTo[parent]? with
  | some ids => ids.toList
  | none => []

/-- Every id that stands as a ghost. -/
def ghostIds (g : Board) : IdSet := .ofList (g.trees.flatMap (·.ghosts))

/-- Whether an id stands as a ghost in some tree. -/
def hasGhost (g : Board) (id : MessageId) : Bool := g.trees.any fun t => (t.ghost? id).isSome

/-- The replies whose thread has never been seen, and the messages that name a parent but no
thread. -/
def absoluteOrphans (g : Board) : IdSet :=
  .ofList ((g.trees.filter (·.root == .unknown)).flatMap (·.replies.map (·.1))
    ++ g.inconsistent.toList)

/-- Whether a message is an absolute orphan. -/
def isAbsoluteOrphan (g : Board) (id : MessageId) : Bool :=
  g.inconsistent.contains id ||
    (g.messages[id]?.bind (·.thread) |>.bind (g.threads[·]?)).any (·.root == .unknown)

/-- Turns a group of orphans into the replies of a deleted root. Also tells whether there was such a
group. -/
def markDeletedRoot (g : Board) (thread : MessageId) : Board × Bool :=
  match g.threads[thread]? with
  | some t =>
    if t.root == .unknown && !t.isEmpty then
      ({ g with
          threads := g.threads.insert thread { t with root := .deleted }
          deletedRoots := g.deletedRoots.insert thread }, true)
    else (g, false)
  | none => (g, false)

/-! ## Loops of named parents -/

/-- The messages met on the way from `next` back to `start`, following stored messages of `thread`
that are still in `unseen`. Nothing if the way ends elsewhere. -/
def wayBack? (thread start : MessageId) (unseen : IdMap Message) (next : Option MessageId) :
    Option (List Message) :=
  match next with
  | none => none
  | some p =>
    if p = thread then none
    else if p = start then some []
    else if h : p ∈ unseen then
      if unseen[p].thread = some thread then
        (wayBack? thread start (unseen.erase p) unseen[p].parent).map (unseen[p] :: ·)
      else none
    else none
termination_by unseen.size
decreasing_by
  have : unseen.size ≠ 0 := by
    intro h0
    exact absurd h (by simp [Std.ExtTreeMap.eq_empty_iff_size_eq_zero.2 h0])
  rw [Std.ExtTreeMap.size_erase, if_pos (Std.ExtTreeMap.mem_iff_contains.1 h)]
  omega

/-- The messages on the loop of named parents through `m`, which need not be stored yet. -/
def loop? (g : Board) (m : Message) : Option (List Message) :=
  m.thread.bind fun thread => (wayBack? thread m.id g.messages m.parent).map (m :: ·)

/-- The message with the smaller date, or of equal dates the smaller id. -/
def earlier (a b : Message) : Message :=
  if (compareLex (compareOn Message.created) (compareOn Message.id) b a).isLT then b else a

/-- The message that cuts the loop through `m` by hanging under the root. -/
def breaker? (g : Board) (m : Message) : Option MessageId :=
  (g.loop? m).bind fun
    | [] => none
    | first :: rest => some (rest.foldl earlier first).id

/-! ## Placing replies -/

/-- Where a reply belongs in its thread. -/
def placement (g : Board) (m : Message) (thread : MessageId) : Link :=
  match m.parent with
  | none => .root
  | some p =>
    if p = thread then .root
    else
      match g.messages[p]? with
      | none => .node p
      | some parent =>
        if parent.thread ≠ some thread then .root
        else if g.breaker? m = some m.id then .root
        else .node p

/-- The thread of a stored reply, with its tree. -/
def treeOf? (g : Board) (id : MessageId) : Option (MessageId × ThreadTree) :=
  (g.messages[id]?.bind (·.thread)).bind fun thread => g.threads[thread]?.map (thread, ·)

/-- Detaches a stored reply from where it hangs. Also tells whether a ghost went. -/
def detach (g : Board) (id : MessageId) : Board × Bool :=
  match g.treeOf? id with
  | none => (g, false)
  | some (thread, t) =>
    match t.reply? id with
    | none => (g, false)
    | some r =>
      let (t, gone) := t.unlink id r.parent
      ({ g with threads := g.threads.insert thread t }, gone)

/-- Attaches a stored reply where it belongs now. Also gives the ghost made for its parent. -/
def attach (g : Board) (id : MessageId) : Board × Option MessageId :=
  match g.messages[id]?, g.treeOf? id with
  | some m, some (thread, t) =>
    let place := g.placement m thread
    let (t, made) := t.link id m.created place
    ({ g with threads := g.threads.insert thread t },
      match made, place with
      | true, .node p => some p
      | _, _ => none)
  | _, _ => (g, none)

/-- Moves a stored reply to where it belongs now. Also gives the ghost made for its parent. -/
def relocate (g : Board) (id : MessageId) : Board × Option MessageId :=
  (g.detach id).1.attach id

/-- Detaches several replies. Also tells whether a ghost went. -/
def detachAll (g : Board) (ids : List MessageId) : Board × Bool :=
  ids.foldl (fun (g, gone) id => let (g, went) := g.detach id; (g, gone || went)) (g, false)

/-- Attaches several replies. Also lists the ghosts made. -/
def attachAll (g : Board) (ids : List MessageId) : Board × List MessageId :=
  ids.foldl (fun (g, made) id => let (g, ghost) := g.attach id; (g, made ++ ghost.toList)) (g, [])

/-- Moves several replies. Also lists the ghosts made. -/
def relocateAll (g : Board) (ids : List MessageId) : Board × List MessageId :=
  ids.foldl (fun (g, made) id => let (g, ghost) := g.relocate id; (g, made ++ ghost.toList)) (g, [])

end Board

end Noticeboard
