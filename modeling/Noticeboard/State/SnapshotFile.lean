import Noticeboard.Bytes
import Noticeboard.State.Snapshot

/-!
# Snapshot files

A snapshot is kept in a file as bytes. Each type that occurs in a snapshot has a form, and the form
of a record has its fields one behind the other in the order of the record. A board name that does
not keep the rule for names cannot be read, and what follows the snapshot is ignored.
-/

namespace Noticeboard

/-! ## Ids -/

/-- An identity in 32 bytes. -/
def IdentityId.form : Form IdentityId := (Form.bits 32).via bits fun b => some ⟨b⟩

/-- A token in 16 bytes behind their number. -/
def Token.form : Form Token :=
  ((Form.number 8).pair (Form.bits 16)).via (fun t => (16, t.bits)) fun (n, b) =>
    if n = 16 then some ⟨b⟩ else none

/-- The author and the token of a message id. -/
def MessageId.form : Form MessageId :=
  (IdentityId.form.pair Token.form).via (fun id => (id.author, id.token)) fun (a, t) => some ⟨a, t⟩

/-- The author and the edition of a list id. -/
def ListId.form : Form ListId :=
  (IdentityId.form.pair .word64).via (fun id => (id.author, id.edition)) fun (a, e) => some ⟨a, e⟩

/-- The text of a board name. -/
def BoardName.form : Form BoardName := Form.text.via text ofText?

/-! ## Messages and lists -/

/-- The fields of an attachment. -/
def Attachment.form : Form Attachment :=
  (Form.text.pair .word64).via (fun a => (a.key, a.size)) fun (key, size) => some ⟨key, size⟩

/-- The fields of a message. -/
def Message.form : Form Message :=
  (MessageId.form.pair <| Form.text.pair <| Form.text.pair <| Form.word64.pair <|
    Attachment.form.list.pair <| BoardName.form.set.pair <| BoardName.form.option.pair <|
    MessageId.form.option.pair <| MessageId.form.option.pair ListId.form.option).via
    (fun m => (m.id, m.title, m.body, m.created, m.attachments, m.boards, m.replyToBoard, m.parent,
      m.thread, m.announcedIn))
    fun (id, title, body, created, attachments, boards, replyToBoard, parent, thread,
        announcedIn) =>
      some { id, title, body, created, attachments, boards, replyToBoard, parent, thread,
             announcedIn }

/-- The fields of an announcement. -/
def Announcement.form : Form Announcement :=
  (MessageId.form.pair <| BoardName.form.pair <| Form.word64.pair <| Form.text.pair .flag).via
    (fun r => (r.message, r.board, r.announced, r.hint, r.downloaded))
    fun (message, board, announced, hint, downloaded) =>
      some { message, board, announced, hint, downloaded }

/-- The fields of a list. -/
def MessageList.form : Form MessageList :=
  (ListId.form.pair <| Announcement.form.list.pair .word64).via
    (fun l => (l.id, l.references, l.received))
    fun (id, references, received) => some { id, references, received }

/-! ## Markers -/

/-- A message or a list, in this order. -/
def Subject.form : Form Subject :=
  (MessageId.form.either ListId.form).via
    (fun
      | .message id => .inl id
      | .list id => .inr id)
    fun
      | .inl id => some (.message id)
      | .inr id => some (.list id)

/-- Not found or transient, in this order. -/
def FetchReason.form : Form FetchReason :=
  (Form.nothing.either .nothing).via
    (fun
      | .notFound => .inl ()
      | .transient => .inr ())
    fun
      | .inl () => some .notFound
      | .inr () => some .transient

/-- The fields of a marker. -/
def Marker.form : Form Marker :=
  (FetchReason.form.pair <| Form.word32.pair <| Form.word64.pair <| Form.word64.pair <|
    Form.word64.pair .flag).via
    (fun m => (m.reason, m.repeats, m.firstFailure, m.lastAttempt, m.nextRetry, m.reported))
    fun (reason, repeats, firstFailure, lastAttempt, nextRetry, reported) =>
      some { reason, repeats, firstFailure, lastAttempt, nextRetry, reported }

/-! ## Outbox -/

/-- Queued or published, in this order; then where and when. -/
def OutboxState.form : Form OutboxState :=
  (Form.nothing.either (Form.text.pair .word64)).via
    (fun
      | .queued => .inl ()
      | .published location at_ => .inr (location, at_))
    fun
      | .inl () => some .queued
      | .inr (location, at_) => some (.published location at_)

/-- The fields of an entry of the outbox. -/
def OutboxEntry.form : Form OutboxEntry :=
  (Message.form.pair <| Form.word64.pair <| OutboxState.form.pair <| Form.word32.pair
    Form.text.option).via
    (fun e => (e.message, e.queuedAt, e.state, e.attempts, e.lastError))
    fun (message, queuedAt, state, attempts, lastError) =>
      some { message, queuedAt, state, attempts, lastError }

/-! ## Snapshots -/

namespace Snapshot

/-- The fields of a snapshot. -/
def form : Form Snapshot :=
  (Form.word32.pair <| Form.word64.pair <| BoardName.form.list.pair <| Message.form.list.pair <|
    (BoardName.form.map MessageId.form.list).pair <| MessageList.form.list.pair <|
    (Subject.form.pair Marker.form).list.pair <| (IdentityId.form.map BoardName.form.set).pair <|
    (MessageId.form.map OutboxEntry.form).pair IdentityId.form.list).via
    (fun p => (p.version, p.takenAt, p.boards, p.messages, p.deletedRoots, p.lists, p.markers,
      p.subscriptions, p.outbox, p.deleted))
    fun (version, takenAt, boards, messages, deletedRoots, lists, markers, subscriptions, outbox,
        deleted) =>
      some { version, takenAt, boards, messages, deletedRoots, lists, markers, subscriptions,
             outbox, deleted }

/-- The contents of the file of a snapshot. -/
def toBytes (p : Snapshot) : Bytes := form.write p

/-- The snapshot at the front of the contents of a file. -/
def ofBytes? (bs : Bytes) : Option Snapshot := (form.read bs).map (·.1)

end Snapshot

end Noticeboard
