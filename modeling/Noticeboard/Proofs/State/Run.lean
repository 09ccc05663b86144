import Noticeboard.Engine
import Noticeboard.Proofs.Board.Run
import Noticeboard.Proofs.ListIndex
import Noticeboard.Proofs.Validation

/-!
# Runs of an engine

`Engine.Op` lists the operations from outside, and `Engine.run` carries out several on a fresh engine.
Each operation that changes boards or lists has a lemma that says once what it can do; from these
follows what every state of a run has (`State.Sound`): its boards are coherent, its lists are sound,
and what it stores counts as downloaded.
-/

namespace Noticeboard

namespace Engine

/-- An operation from outside. -/
inductive Op where
  | receive (m : Message) (announcedBy : Option IdentityId)
  | receiveList (id : ListId) (references : List Announcement) (received : Timestamp)
  | fail (subject : Subject) (reason : FetchReason)
  | sweep
  | discard (id : MessageId)
  | retainMarkers (keep : MessageId → Bool)
  | deleteIdentity (identity : IdentityId)
  | subscribe (viewer : IdentityId) (name : BoardName)
  | unsubscribe (viewer : IdentityId) (name : BoardName)
  | queueOwn (m : Message)
  | unsend (id : MessageId)
  | markPublished (id : MessageId) (location : String)
  | markPublishFailed (id : MessageId) (error : String)
  | setClock (now : Timestamp)

/-- An engine after one operation. -/
def step (e : Engine) : Op → Engine
  | .receive m announcedBy => (e.receive m announcedBy).1
  | .receiveList id references received => (e.receiveList id references received).1
  | .fail subject reason => e.fail subject reason
  | .sweep => e.sweep.1
  | .discard id => e.discard id
  | .retainMarkers keep => e.retainMarkers keep
  | .deleteIdentity identity => (e.deleteIdentity identity).1
  | .subscribe viewer name => (e.subscribe viewer name).1
  | .unsubscribe viewer name => (e.unsubscribe viewer name).1
  | .queueOwn m => (e.queueOwn m).1
  | .unsend id => (e.unsend id).1
  | .markPublished id location => (e.markPublished id location).1
  | .markPublishFailed id error => (e.markPublishFailed id error).1
  | .setClock now => e.atTime now

/-- An engine after several operations. -/
def steps (e : Engine) (ops : List Op) : Engine := ops.foldl step e

/-- A fresh engine after several operations. -/
def run (config : EngineConfig) (trust : Trust) (now : Timestamp) (ops : List Op) : Engine :=
  (new config trust now).steps ops

theorem config_step (e : Engine) (op : Op) : (e.step op).config = e.config := by
  cases op <;> rfl

theorem trust_step (e : Engine) (op : Op) : (e.step op).trust = e.trust := by
  cases op <;> rfl

theorem config_steps (e : Engine) (ops : List Op) : (e.steps ops).config = e.config := by
  induction ops generalizing e with
  | nil => rfl
  | cons op ops ih => exact (ih (e.step op)).trans (config_step e op)

theorem trust_steps (e : Engine) (ops : List Op) : (e.steps ops).trust = e.trust := by
  induction ops generalizing e with
  | nil => rfl
  | cons op ops ih => exact (ih (e.step op)).trans (trust_step e op)

end Engine

namespace State

variable {s s' : State} {m : Message} {limits : Limits} {announcedBy : Option IdentityId}
  {b name : BoardName} {id x : MessageId} {g : Board}

/-! ## Boards -/

theorem board_eq (h : s.boards[b]? = some g) : s.board b = g := by
  rw [board, h, Option.getD_some]

theorem board_congr (h : s'.boards = s.boards) : s'.board b = s.board b := by
  rw [board, board, h]

theorem mem_boards_of_stored (h : id ∈ (s.board b).messages) : s.boards[b]? = some (s.board b) := by
  rw [board] at h ⊢
  cases hg : s.boards[b]? with
  | none => simp [hg, Board.empty] at h
  | some g => rfl

theorem isStored_iff : s.isStored id = true ↔ ∃ b, id ∈ (s.board b).messages := by
  rw [isStored, any_iff]
  constructor
  · rintro ⟨b, g, hg, hid⟩
    exact ⟨b, board_eq hg ▸ Std.ExtTreeMap.mem_iff_contains.2 hid⟩
  · rintro ⟨b, hid⟩
    exact ⟨b, _, mem_boards_of_stored hid, Std.ExtTreeMap.mem_iff_contains.1 hid⟩

/-- A board that comes into being without messages is as it was before. -/
theorem board_insertIfNew (s : State) (name b : BoardName) :
    State.board { s with boards := s.boards.insertIfNew name (.empty name) } b = s.board b := by
  rw [board, board]
  simp only [Std.ExtTreeMap.getElem?_insertIfNew, Std.LawfulEqOrd.compare_eq_iff_eq]
  split
  · next hnew =>
    obtain ⟨rfl, hnew⟩ := hnew
    rw [Std.ExtTreeMap.getElem?_eq_none hnew, Option.getD_none, Option.getD_some]
  · rfl

/-! ## What the operations do -/

/-- Filing a message on a board that it targets goes through, unless its author is deleted. -/
theorem fileOn_eq (hname : (s.board name).name = name) (hauthor : s.isDeleted m.author = false)
    (htarget : m.targets name = true) : ∃ report, s.fileOn m name =
      ({ s with boards := s.boards.insert name ((s.board name).ingested m) }, .ok report) := by
  obtain ⟨report, hreport⟩ := Board.exists_ingest_eq_ok (g := s.board name) (hname.symm ▸ htarget)
  refine ⟨report, ?_⟩
  have hboard := board_insertIfNew s name name
  rw [fileOn]
  simp only [isDeleted] at hauthor ⊢
  simp only [hauthor, hboard, hreport, insert_insertIfNew, Bool.false_eq_true, if_false]

/-- Filing a message on boards that it targets goes through on each of them. -/
theorem fileOnAll_eq (hnamed : ∀ b, (s.board b).name = b) (hauthor : s.isDeleted m.author = false)
    {names : List BoardName} (hnames : names.Nodup) (htargets : ∀ b ∈ names, m.targets b = true) :
    ∃ boards reports, s.fileOnAll m names = ({ s with boards }, .ok reports) ∧ ∀ b, boards[b]? =
      if b ∈ names then some ((s.board b).ingested m) else s.boards[b]? := by
  induction names generalizing s with
  | nil => exact ⟨s.boards, [], rfl, fun b => by simp⟩
  | cons name rest ih =>
    obtain ⟨hname, hrest⟩ := List.nodup_cons.1 hnames
    obtain ⟨htarget, htargets⟩ := List.forall_mem_cons.1 htargets
    obtain ⟨r, hr⟩ := fileOn_eq (hnamed name) hauthor htarget
    obtain ⟨filed, hdef⟩ : ∃ filed : State,
        filed = { s with boards := s.boards.insert name ((s.board name).ingested m) } := ⟨_, rfl⟩
    have hfiled (b : BoardName) : filed.boards[b]? =
        if b = name then some ((s.board b).ingested m) else s.boards[b]? := by
      simp only [hdef, Std.ExtTreeMap.getElem?_insert, Std.LawfulEqOrd.compare_eq_iff_eq]
      grind
    have hboard (b : BoardName) (hb : b ≠ name) : filed.board b = s.board b := by
      rw [board, board, hfiled, if_neg hb]
    have hnamed' (b : BoardName) : (filed.board b).name = b := by
      by_cases hb : b = name
      · rw [board_eq ((hfiled b).trans (if_pos hb)), Board.name_ingested, hnamed]
      · rw [hboard b hb, hnamed]
    have hauthor' : filed.isDeleted m.author = false := hdef ▸ hauthor
    obtain ⟨boards, reports, heq, hboards⟩ := ih hnamed' hauthor' hrest htargets
    refine ⟨boards, r :: reports, ?_, fun b => ?_⟩
    · rw [fileOnAll]
      simp only [hr]
      rw [← hdef, heq, hdef]
      rfl
    · by_cases hb : b = name
      · subst hb
        rw [hboards, if_neg hname, hfiled, if_pos rfl, if_pos List.mem_cons_self]
      · rw [hboards, hboard b hb, hfiled, if_neg hb]
        simp [hb]

/-- What can come of a received message: it is refused for its author, rejected, or filed on every
board that it targets. -/
theorem receive_cases (hnamed : ∀ b, (s.board b).name = b) (limits : Limits) (m : Message)
    (announcedBy : Option IdentityId) :
    (s.isDeleted m.author = true ∧
      s.receive limits m announcedBy = (s, .error (.deletedIdentity m.author))) ∨
    (s.isDeleted m.author = false ∧ ∃ e, m.validate announcedBy limits = .error e ∧
      s.receive limits m announcedBy = (s.settle m.id, .error (.validation e))) ∨
    (s.isDeleted m.author = false ∧ m.validate announcedBy limits = .ok () ∧ ∃ boards reports,
      s.receive limits m announcedBy =
        ({ s with boards }.settle m.id, .ok { message := m.id, boards := reports }) ∧
      ∀ b, boards[b]? = if m.targets b then some ((s.board b).ingested m) else s.boards[b]?) := by
  rw [receive]
  cases hauthor : s.isDeleted m.author with
  | true => exact .inl ⟨rfl, rfl⟩
  | false =>
    rw [if_neg Bool.false_ne_true]
    cases hvalid : m.validate announcedBy limits with
    | error e => exact .inr (.inl ⟨rfl, e, rfl, rfl⟩)
    | ok u =>
      have htargets : ∀ b, b ∈ m.boards.toList ↔ m.targets b = true := by
        simp [Message.targets]
      obtain ⟨boards, reports, heq, hboards⟩ :=
        fileOnAll_eq hnamed hauthor (nodup_toList m.boards) fun b => (htargets b).1
      refine .inr (.inr ⟨rfl, rfl, boards, reports, ?_, fun b => ?_⟩)
      · simp only [deliver, heq]
      · rw [hboards]
        simp only [htargets]

/-- A message that is neither refused nor rejected is filed. -/
theorem receive_of_valid (hnamed : ∀ b, (s.board b).name = b)
    (hauthor : s.isDeleted m.author = false) (hvalid : m.validate announcedBy limits = .ok ()) :
    ∃ boards, (s.receive limits m announcedBy).1 = { s with boards }.settle m.id ∧
      ∀ b, boards[b]? = if m.targets b then some ((s.board b).ingested m) else s.boards[b]? := by
  obtain ⟨hdeleted, -⟩ | ⟨-, error, herror, -⟩ | ⟨-, -, boards, reports, heq, hboards⟩ :=
    receive_cases hnamed limits m announcedBy
  · rw [hauthor] at hdeleted
    cases hdeleted
  · rw [hvalid] at herror
    cases herror
  · exact ⟨boards, congrArg Prod.fst heq, hboards⟩

/-- A filed message arrives on every board; one that it does not target takes no notice. -/
theorem board_filed (hnamed : ∀ b, (s.board b).name = b) {boards : BoardMap Board}
    (hboards : ∀ b, boards[b]? = if m.targets b then some ((s.board b).ingested m) else s.boards[b]?)
    (b : BoardName) : ({ s with boards }.settle m.id).board b = (s.board b).ingested m := by
  change boards[b]?.getD (.empty b) = _
  rw [hboards]
  split
  · rfl
  · next hb =>
    rw [Board.ingested_of_not_targets (by rw [hnamed]; simpa using hb)]
    rfl

theorem mem_board_filed (hnamed : ∀ b, (s.board b).name = b) {boards : BoardMap Board}
    (hboards : ∀ b, boards[b]? = if m.targets b then some ((s.board b).ingested m) else s.boards[b]?) :
    x ∈ (({ s with boards }.settle m.id).board b).messages ↔
      x ∈ (s.board b).messages ∨ (x = m.id ∧ m.targets b = true) := by
  rw [board_filed hnamed hboards]
  cases htargets : m.targets b with
  | false => simp [Board.ingested_of_not_targets (by rwa [hnamed])]
  | true => simp [Board.mem_messages_ingested (by rwa [hnamed]), or_comm]

/-- Whether a received message is filed. -/
def accepts (s : State) (limits : Limits) (m : Message) (announcedBy : Option IdentityId) : Bool :=
  !s.isDeleted m.author && (m.validate announcedBy limits).isOk

theorem accepts_iff : s.accepts limits m announcedBy = true ↔
    s.isDeleted m.author = false ∧ m.validate announcedBy limits = .ok () := by
  rw [accepts, Bool.and_eq_true, Bool.not_eq_true']
  cases m.validate announcedBy limits <;> simp [Except.isOk, Except.toBool]

/-- An arrival files the message on every board that it targets, or changes no board. -/
theorem boards_receive (hnamed : ∀ b, (s.board b).name = b) (b : BoardName) :
    (s.receive limits m announcedBy).1.boards[b]? =
      if s.accepts limits m announcedBy = true ∧ m.targets b = true then
        some ((s.board b).ingested m)
      else s.boards[b]? := by
  obtain ⟨hauthor, heq⟩ | ⟨-, e, hvalid, heq⟩ | ⟨hauthor, hvalid, boards, reports, heq, hboards⟩ :=
    receive_cases hnamed limits m announcedBy
  · have haccepts : ¬ s.accepts limits m announcedBy = true := by simp [accepts_iff, hauthor]
    rw [if_neg fun h => haccepts h.1, heq]
  · have haccepts : ¬ s.accepts limits m announcedBy = true := by simp [accepts_iff, hvalid]
    rw [if_neg fun h => haccepts h.1, heq]
    rfl
  · simp only [accepts_iff.2 ⟨hauthor, hvalid⟩, true_and, heq]
    exact hboards b

theorem board_receive (hnamed : ∀ b, (s.board b).name = b) (b : BoardName) :
    (s.receive limits m announcedBy).1.board b =
      if s.accepts limits m announcedBy = true then (s.board b).ingested m else s.board b := by
  rw [board, boards_receive hnamed]
  cases haccepts : s.accepts limits m announcedBy with
  | false => simp [board]
  | true =>
    cases htargets : m.targets b with
    | true => simp
    | false =>
      rw [if_pos rfl, Board.ingested_of_not_targets (by rwa [hnamed])]
      simp [board]

/-- Whatever comes of a received message, outbox and deleted identities stay. -/
theorem receive_keeps (hnamed : ∀ b, (s.board b).name = b) :
    (s.receive limits m announcedBy).1.outbox = s.outbox ∧
      (s.receive limits m announcedBy).1.deleted = s.deleted := by
  obtain ⟨-, heq⟩ | ⟨-, e, -, heq⟩ | ⟨-, -, boards, reports, heq, -⟩ :=
    receive_cases hnamed limits m announcedBy
  all_goals rw [heq]
  all_goals exact ⟨rfl, rfl⟩

/-- What can come of a received list: it is refused, or it is kept and the stored ones of its
messages count as downloaded. -/
theorem receiveList_cases (s : State) (limits : ListLimits) (id : ListId)
    (references : List Announcement) (received : Timestamp) :
    (∃ e, s.receiveList limits id references received = (s, .error e)) ∨
    (s.isDeleted id.author = false ∧ ∃ lists wanted,
      s.lists.receive limits id references received = .ok (lists, wanted) ∧
      s.receiveList limits id references received =
        ({ s with
            lists := (wanted.filter s.isStored).foldl (fun ix id => (ix.markDownloaded id).1) lists
            markers := s.markers.succeed (.list id) },
          .ok (wanted.filter fun id => !s.isStored id))) := by
  rw [receiveList]
  cases hauthor : s.isDeleted id.author with
  | true => exact .inl ⟨_, rfl⟩
  | false =>
    rw [if_neg Bool.false_ne_true]
    cases hlists : s.lists.receive limits id references received with
    | error e => exact .inl ⟨_, rfl⟩
    | ok r =>
      obtain ⟨lists, wanted⟩ := r
      refine .inr ⟨rfl, lists, wanted, rfl, ?_⟩
      simp only [List.partition_eq_filter_filter]
      rfl

theorem board_receiveList (s : State) (limits : ListLimits) (id : ListId)
    (references : List Announcement) (received : Timestamp) (b : BoardName) :
    (s.receiveList limits id references received).1.board b = s.board b := by
  obtain ⟨e, heq⟩ | ⟨-, lists, wanted, -, heq⟩ :=
    receiveList_cases s limits id references received
  · rw [heq]
  · exact board_congr (by rw [heq])

/-- What can come of an own message: it is refused, or it is queued and taken like any other. -/
theorem queueOwn_cases (s : State) (limits : Limits) (m : Message) (now : Timestamp) :
    (∃ e, s.queueOwn limits m now = (s, .error e)) ∨
    (s.isDeleted m.author = false ∧ m.validate (some m.author) limits = .ok () ∧
      s.queueOwn limits m now =
        { s with outbox := s.outbox.queue m now }.receive limits m (some m.author)) := by
  rw [queueOwn]
  cases hauthor : s.isDeleted m.author with
  | true => exact .inl ⟨_, rfl⟩
  | false =>
    rw [if_neg Bool.false_ne_true]
    cases hvalid : m.validate (some m.author) limits with
    | error e => exact .inl ⟨_, rfl⟩
    | ok u => exact .inr ⟨rfl, rfl, rfl⟩

/-- What can come of taking back a message: it is not queued, or it leaves outbox and boards. -/
theorem unsend_cases (s : State) (id : MessageId) :
    (s.outbox.isQueued id = false ∧ ∃ e, s.unsend id = (s, .error e)) ∨
    (s.outbox.isQueued id = true ∧
      s.unsend id = ({ s with outbox := s.outbox.erase id }.takeDown id, .ok ())) := by
  rw [unsend, Outbox.isQueued]
  cases s.outbox[id]? with
  | none => exact .inl ⟨rfl, _, rfl⟩
  | some e =>
    cases he : e.isPublished with
    | true => exact .inl ⟨by simp [he], .alreadyPublished id, by simp [he]⟩
    | false => exact .inr ⟨by simp [he], by simp [he]⟩

theorem queueOwn_keep {p : State → Prop} {now : Timestamp} (h : p s)
    (hqueued : s.isDeleted m.author = false → m.validate (some m.author) limits = .ok () →
      p ({ s with outbox := s.outbox.queue m now }.receive limits m (some m.author)).1) :
    p (s.queueOwn limits m now).1 := by
  obtain ⟨e, heq⟩ | ⟨hauthor, hvalid, heq⟩ := queueOwn_cases s limits m now
  · rw [heq]
    exact h
  · rw [heq]
    exact hqueued hauthor hvalid

theorem unsend_keep {p : State → Prop} (h : p s)
    (htaken : p ({ s with outbox := s.outbox.erase id }.takeDown id)) : p (s.unsend id).1 := by
  obtain ⟨-, e, heq⟩ | ⟨-, heq⟩ := unsend_cases s id
  · rw [heq]
    exact h
  · rw [heq]
    exact htaken

theorem boards_takeDown (s : State) (id : MessageId) (b : BoardName) :
    (s.takeDown id).boards[b]? = s.boards[b]?.map (·.removed id false) := by
  rw [takeDown, Std.ExtTreeMap.getElem?_map]
  rfl

theorem board_takeDown (s : State) (id : MessageId) (b : BoardName) :
    (s.takeDown id).board b = (s.board b).removed id false := by
  rw [board, boards_takeDown, board]
  cases s.boards[b]? with
  | none => exact (Board.removed_of_none (by simp [Board.empty])).symm
  | some g => rfl

theorem boards_deleteIdentity (s : State) (identity : IdentityId) (b : BoardName) :
    (s.deleteIdentity identity).1.boards[b]? =
      s.boards[b]?.map fun g => (g.removeAuthor identity).1 := by
  simp only [deleteIdentity, Std.ExtTreeMap.getElem?_map, Option.map_map]
  rfl

theorem board_deleteIdentity (s : State) (identity : IdentityId) (b : BoardName) :
    (s.deleteIdentity identity).1.board b = ((s.board b).removeAuthor identity).1 := by
  rw [board, boards_deleteIdentity, board]
  cases s.boards[b]? with
  | none =>
    have hnone : (Board.empty b).authored identity = [] := by simp [Board.authored, Board.empty]
    simp only [Option.map_none, Option.getD_none, Board.removeAuthor, hnone]
    rfl
  | some g => rfl

theorem isDeleted_deleteIdentity (s : State) (identity a : IdentityId) :
    (s.deleteIdentity identity).1.isDeleted a = true ↔ identity = a ∨ s.isDeleted a = true := by
  simp [isDeleted, deleteIdentity]

theorem mem_board_takeDown (hkeyed : Board.Keyed (s.board b).messages) (id : MessageId) :
    x ∈ ((s.takeDown id).board b).messages ↔ x ≠ id ∧ x ∈ (s.board b).messages := by
  rw [board_takeDown, Board.messages_removed hkeyed, Std.ExtTreeMap.mem_erase, ne_eq,
    Std.LawfulEqOrd.compare_eq_iff_eq, @eq_comm _ id]

theorem mem_board_deleteIdentity (hcoherent : (s.board b).Coherent) (identity : IdentityId) :
    x ∈ ((s.deleteIdentity identity).1.board b).messages ↔
      x.author ≠ identity ∧ x ∈ (s.board b).messages := by
  simp only [board_deleteIdentity, Std.ExtTreeMap.mem_iff_isSome_getElem?,
    (hcoherent.removeAuthor identity).2.2.1]
  split <;> simp [*]

theorem board_subscribe (s : State) (viewer : IdentityId) (name b : BoardName) :
    (s.subscribe viewer name).1.board b = s.board b :=
  board_insertIfNew s name b

/-! ## What every state has -/

/-- The boards of a state are coherent, its lists sound, and what it stores counts as downloaded. -/
structure Sound (s : State) : Prop where
  coherent : ∀ b, (s.board b).Coherent
  named : ∀ b, (s.board b).name = b
  lists : s.lists.Sound
  downloaded : ∀ b, ∀ x ∈ (s.board b).messages, x ∈ s.lists.downloaded

theorem sound_empty : empty.Sound := by
  have hboard (b : BoardName) : empty.board b = .empty b := by simp [board, empty]
  refine ⟨fun b => ?_, fun b => ?_, ListIndex.sound_empty, fun b x hx => ?_⟩
  · rw [hboard]
    exact Board.coherent_empty b
  · rw [hboard, Board.empty]
  · rw [hboard] at hx
    simp [Board.empty] at hx

namespace Sound

theorem mem_downloaded (h : s.Sound) (hx : s.isStored x = true) : x ∈ s.lists.downloaded := by
  obtain ⟨b, hb⟩ := isStored_iff.1 hx
  exact h.downloaded b x hb

theorem congr (h : s.Sound) (hboards : ∀ b, s'.board b = s.board b) (hlists : s'.lists = s.lists) :
    s'.Sound := by
  refine ⟨?_, ?_, hlists ▸ h.lists, ?_⟩
  · simpa only [hboards] using h.coherent
  · simpa only [hboards] using h.named
  · simpa only [hboards, hlists] using h.downloaded

/-- Boards may stay as they are while more counts as downloaded. -/
theorem setLists (h : s.Sound) (hboards : ∀ b, s'.board b = s.board b) (hlists : s'.lists.Sound)
    (hdownloaded : ∀ x ∈ s.lists.downloaded, x ∈ s'.lists.downloaded) : s'.Sound := by
  refine ⟨?_, ?_, hlists, ?_⟩
  · simpa only [hboards] using h.coherent
  · simpa only [hboards] using h.named
  · intro b x hx
    exact hdownloaded x (h.downloaded b x (hboards b ▸ hx))

theorem settle (h : s.Sound) (id : MessageId) : (s.settle id).Sound :=
  h.setLists (fun _ => rfl) (h.lists.markDownloaded id) fun _ hx =>
    ListIndex.mem_downloaded_markDownloaded.2 (.inr hx)

theorem receive (h : s.Sound) (limits : Limits) (m : Message) (announcedBy : Option IdentityId) :
    (s.receive limits m announcedBy).1.Sound := by
  obtain ⟨-, heq⟩ | ⟨-, e, -, heq⟩ | ⟨-, hvalid, boards, reports, heq, hboards⟩ :=
    receive_cases h.named limits m announcedBy
  · rw [heq]
    exact h
  · rw [heq]
    exact h.settle m.id
  · rw [heq]
    have hself := Message.namesItself_of_validate hvalid
    have hboard := board_filed h.named hboards
    refine ⟨fun b => ?_, fun b => ?_, h.lists.markDownloaded m.id, fun b x hx => ?_⟩
    · rw [hboard]
      exact (h.coherent b).ingested hself
    · rw [hboard, Board.name_ingested, h.named]
    · refine ListIndex.mem_downloaded_markDownloaded.2 ?_
      rcases (mem_board_filed h.named hboards).1 hx with hx | ⟨rfl, -⟩
      · exact .inr (h.downloaded b x hx)
      · exact .inl rfl

theorem receiveList (h : s.Sound) (limits : ListLimits) (id : ListId)
    (references : List Announcement) (received : Timestamp) :
    (s.receiveList limits id references received).1.Sound := by
  obtain ⟨e, heq⟩ | ⟨-, lists, wanted, hlists, heq⟩ :=
    receiveList_cases s limits id references received
  · rw [heq]
    exact h
  · rw [heq]
    refine h.setLists (fun _ => rfl) ((h.lists.receive hlists).foldl_markDownloaded _) ?_
    intro x hx
    refine (ListIndex.mem_downloaded_foldl _).2 (.inr ?_)
    rwa [ListIndex.downloaded_receive hlists]

/-- What is stored counts as downloaded, so all that an accepted list makes wanted is missing. -/
theorem receiveList_of_ok (h : s.Sound) {limits : ListLimits} {id : ListId}
    {references : List Announcement} {received : Timestamp} {lists : ListIndex}
    {wanted : List MessageId} (hauthor : s.isDeleted id.author = false)
    (hlists : s.lists.receive limits id references received = .ok (lists, wanted)) :
    s.receiveList limits id references received =
      ({ s with lists, markers := s.markers.succeed (.list id) }, .ok wanted) := by
  have hmissing (x : MessageId) (hx : x ∈ wanted) : s.isStored x = false := by
    obtain ⟨⟨-, hnot⟩, -⟩ := (ListIndex.mem_wanted_receive hlists).1 hx
    rw [ListIndex.downloaded_receive hlists] at hnot
    exact Bool.eq_false_iff.2 fun hstored => hnot (h.mem_downloaded hstored)
  have hnone : wanted.filter s.isStored = [] := by
    simpa using hmissing
  have hall : wanted.filter (fun x => !s.isStored x) = wanted := by
    simpa using hmissing
  rw [State.receiveList, hauthor, hlists]
  simp only [Bool.false_eq_true, if_false, List.partition_eq_filter_filter]
  rw [hnone]
  exact congrArg (Prod.mk _) (congrArg Except.ok hall)

theorem deleteIdentity (h : s.Sound) (identity : IdentityId) :
    (s.deleteIdentity identity).1.Sound := by
  have hremoved (b : BoardName) := (h.coherent b).removeAuthor identity
  refine ⟨fun b => ?_, fun b => ?_, h.lists.removeAuthor identity, fun b x hx => ?_⟩
  · rw [board_deleteIdentity]
    exact (hremoved b).1
  · rw [board_deleteIdentity, (hremoved b).2.1, h.named]
  · obtain ⟨hauthor, hx⟩ := (mem_board_deleteIdentity (h.coherent b) identity).1 hx
    exact ListIndex.mem_downloaded_removeAuthor.2 ⟨h.downloaded b x hx, hauthor⟩

theorem subscribe (h : s.Sound) (viewer : IdentityId) (name : BoardName) :
    (s.subscribe viewer name).1.Sound :=
  h.congr (fun b => board_subscribe s viewer name b) rfl

theorem takeDown (h : s.Sound) (id : MessageId) : (s.takeDown id).Sound := by
  refine ⟨fun b => ?_, fun b => ?_, h.lists, fun b x hx => ?_⟩
  · rw [board_takeDown]
    exact (h.coherent b).removed id false
  · rw [board_takeDown, Board.name_removed, h.named]
  · exact h.downloaded b x ((mem_board_takeDown (h.coherent b).keyed id).1 hx).2

theorem queueOwn (h : s.Sound) (limits : Limits) (m : Message) (now : Timestamp) :
    (s.queueOwn limits m now).1.Sound := by
  have hqueued : State.Sound { s with outbox := s.outbox.queue m now } := h.congr (fun _ => rfl) rfl
  exact queueOwn_keep h fun _ _ => hqueued.receive limits m (some m.author)

theorem unsend (h : s.Sound) (id : MessageId) : (s.unsend id).1.Sound := by
  have herased : State.Sound { s with outbox := s.outbox.erase id } := h.congr (fun _ => rfl) rfl
  exact unsend_keep h (herased.takeDown id)

end Sound

end State

namespace Engine

variable {e : Engine}

theorem sound_step (h : e.state.Sound) (op : Op) : (e.step op).state.Sound := by
  cases op with
  | receive m announcedBy => exact h.receive e.config.validation m announcedBy
  | receiveList id references received => exact h.receiveList e.config.lists id references received
  | discard id => exact h.settle id
  | deleteIdentity identity => exact h.deleteIdentity identity
  | subscribe viewer name => exact h.subscribe viewer name
  | queueOwn m => exact h.queueOwn e.config.validation m e.now
  | unsend id => exact h.unsend id
  | fail | sweep | retainMarkers | unsubscribe | markPublished | markPublishFailed | setClock =>
    exact h.congr (fun _ => rfl) rfl

theorem sound_steps (h : e.state.Sound) (ops : List Op) : (e.steps ops).state.Sound := by
  induction ops generalizing e with
  | nil => exact h
  | cons op ops ih => exact ih (sound_step h op)

theorem sound_run (config : EngineConfig) (trust : Trust) (now : Timestamp) (ops : List Op) :
    (run config trust now ops).state.Sound :=
  sound_steps State.sound_empty ops

end Engine

end Noticeboard
