import Noticeboard.Bytes
import Noticeboard.Document.Value
import Noticeboard.Event
import Noticeboard.Outbox
import Noticeboard.Retry

/-!
# Shapes of messages and events

A record is written as an object with a name for each field, and a choice as an object with the name
of what was chosen, or as the bare name if the choice holds nothing. An identity is a row of 32
bytes, a token its text, and a set a row in ascending order.
-/

namespace Noticeboard

/-! ## Ids -/

instance : Shape IdentityId where
  toValue id := toValue (Bytes.ofNat 32 id.bits.toNat).reverse
  ofValue? v := do
    let bytes : Bytes ← Shape.ofValue? v
    if bytes.length = 32 then some ⟨BitVec.ofNat 256 (Bytes.toNat bytes.reverse)⟩ else none

instance : Shape Token where
  toValue t := toValue t.toText
  ofValue? v := do Token.ofText? (← Shape.ofValue? v)

instance : Shape BoardName where
  toValue b := toValue b.text
  ofValue? v := do BoardName.ofText? (← Shape.ofValue? v)

instance : Shape MessageId where
  toValue id := .record [("author", toValue id.author), ("token", toValue id.token)]
  ofValue? v := do
    let fs ← v.fields? ["author", "token"] .exact
    return ⟨← fs.get? "author", ← fs.get? "token"⟩

instance : Shape ListId where
  toValue id := .record [("author", toValue id.author), ("edition", toValue id.edition)]
  ofValue? v := do
    let fs ← v.fields? ["author", "edition"] .exact
    return ⟨← fs.get? "author", ← fs.get? "edition"⟩

/-! ## Identities -/

instance : Shape OwnIdentity where
  toValue i := .record [("id", toValue i.id), ("nickname", toValue i.nickname)]
  ofValue? v := do
    let fs ← v.fields? ["id", "nickname"] .exact
    return ⟨← fs.get? "id", ← fs.get? "nickname"⟩

instance : Shape RemoteIdentity where
  toValue i := .record [("id", toValue i.id), ("nickname", toValue i.nickname)]
  ofValue? v := do
    let fs ← v.fields? ["id", "nickname"] .exact
    return ⟨← fs.get? "id", ← fs.get? "nickname"⟩

/-! ## Messages and lists -/

instance : Shape Attachment where
  toValue a := .record [("key", toValue a.key), ("size", toValue a.size)]
  ofValue? v := do
    let fs ← v.fields? ["key", "size"] .exact
    return ⟨← fs.get? "key", ← fs.get? "size"⟩

instance : Shape Message where
  toValue m := .record [
    ("id", toValue m.id), ("title", toValue m.title), ("body", toValue m.body),
    ("created", toValue m.created), ("attachments", toValue m.attachments),
    ("boards", toValue m.boards), ("reply_to_board", toValue m.replyToBoard),
    ("parent_id", toValue m.parent), ("thread_id", toValue m.thread),
    ("message_list", toValue m.announcedIn)]
  ofValue? v := do
    let fs ← v.fields? ["id", "title", "body", "created", "attachments", "boards",
      "reply_to_board", "parent_id", "thread_id", "message_list"] .exact
    return {
      id := ← fs.get? "id"
      title := ← fs.get? "title"
      body := ← fs.get? "body"
      created := ← fs.get? "created"
      attachments := ← fs.get? "attachments"
      boards := ← fs.get? "boards"
      replyToBoard := ← fs.get? "reply_to_board"
      parent := ← fs.get? "parent_id"
      thread := ← fs.get? "thread_id"
      announcedIn := ← fs.get? "message_list" }

instance : Shape Announcement where
  toValue r := .record [
    ("message_id", toValue r.message), ("board", toValue r.board),
    ("announced", toValue r.announced), ("location_hint", toValue r.hint),
    ("downloaded", toValue r.downloaded)]
  ofValue? v := do
    let fs ← v.fields? ["message_id", "board", "announced", "location_hint", "downloaded"] .exact
    return {
      message := ← fs.get? "message_id"
      board := ← fs.get? "board"
      announced := ← fs.get? "announced"
      hint := ← fs.get? "location_hint"
      downloaded := ← fs.get? "downloaded" }

instance : Shape MessageList where
  toValue l := .record [
    ("id", toValue l.id), ("references", toValue l.references), ("received", toValue l.received)]
  ofValue? v := do
    let fs ← v.fields? ["id", "references", "received"] .exact
    return {
      id := ← fs.get? "id"
      references := ← fs.get? "references"
      received := ← fs.get? "received" }

/-! ## Markers -/

instance : Shape FetchReason :=
  .ofNames (fun | .notFound => "NotFound" | .transient => "Transient") [.notFound, .transient]

instance : Shape Subject where
  toValue
    | .message id => .choice "Message" (toValue id)
    | .list id => .choice "MessageList" (toValue id)
  ofValue? v :=
    match v.choice? with
    | some ("Message", some content) => (Shape.ofValue? content).map .message
    | some ("MessageList", some content) => (Shape.ofValue? content).map .list
    | _ => none

/-- A marker with its subject as one record. -/
instance : Shape (Subject × Marker) where
  toValue p := .record [
    ("subject", toValue p.1), ("reason", toValue p.2.reason), ("retry_count", toValue p.2.repeats),
    ("first_failure", toValue p.2.firstFailure), ("last_attempt", toValue p.2.lastAttempt),
    ("next_retry", toValue p.2.nextRetry), ("retry_reported", toValue p.2.reported)]
  ofValue? v := do
    let fs ← v.fields? ["subject", "reason", "retry_count", "first_failure", "last_attempt",
      "next_retry", "retry_reported"] .exact
    return (← fs.get? "subject", {
      reason := ← fs.get? "reason"
      repeats := ← fs.get? "retry_count"
      firstFailure := ← fs.get? "first_failure"
      lastAttempt := ← fs.get? "last_attempt"
      nextRetry := ← fs.get? "next_retry"
      reported := ← fs.get? "retry_reported" })

/-! ## Outbox -/

instance : Shape OutboxState where
  toValue
    | .queued => .ofText "Queued"
    | .published location at_ =>
      .choice "Published" (.record [("location", toValue location), ("at", toValue at_)])
  ofValue? v :=
    match v.choice? with
    | some ("Published", some content) => do
      let fs ← content.fields? ["location", "at"] .exact
      return .published (← fs.get? "location") (← fs.get? "at")
    | _ => if v.bare? = some "Queued" then some .queued else none

instance : Shape OutboxEntry where
  toValue e := .record [
    ("message", toValue e.message), ("queued_at", toValue e.queuedAt), ("state", toValue e.state),
    ("attempts", toValue e.attempts), ("last_error", toValue e.lastError)]
  ofValue? v := do
    let fs ← v.fields? ["message", "queued_at", "state", "attempts", "last_error"] .exact
    return {
      message := ← fs.get? "message"
      queuedAt := ← fs.get? "queued_at"
      state := ← fs.get? "state"
      attempts := ← fs.get? "attempts"
      lastError := ← fs.get? "last_error" }

/-! ## Events -/

instance : Shape Topic :=
  .ofNames Topic.name [.arrivals, .fetchFailures, .identities, .notifications, .all]

instance : Shape Source :=
  .ofNames
    (fun
      | .contentStore => "ContentStore"
      | .identityManager => "IdentityManager"
      | .engine => "Engine")
    [.contentStore, .identityManager, .engine]

instance : Shape Event where
  toValue
    | .messageReceived m by_ => .choice "MessageReceived"
        (.record [("message", toValue m), ("announced_by", toValue by_)])
    | .listReceived id references received => .choice "MessageListReceived"
        (.record [("list_id", toValue id), ("references", toValue references),
          ("received", toValue received)])
    | .messageFetchFailed id reason => .choice "MessageFetchFailed"
        (.record [("message_id", toValue id), ("reason", toValue reason)])
    | .listFetchFailed id reason => .choice "MessageListFetchFailed"
        (.record [("list_id", toValue id), ("reason", toValue reason)])
    | .identityDeleted id => .choice "IdentityDeleted" (.record [("identity", toValue id)])
    | .boardUpdated board id => .choice "BoardUpdated"
        (.record [("board", toValue board), ("message_id", toValue id)])
    | .ghostResolved board id => .choice "GhostResolved"
        (.record [("board", toValue board), ("message_id", toValue id)])
  ofValue? v :=
    match v.choice? with
    | some ("MessageReceived", some content) => do
      let fs ← content.fields? ["message", "announced_by"] .exact
      return .messageReceived (← fs.get? "message") (← fs.get? "announced_by")
    | some ("MessageListReceived", some content) => do
      let fs ← content.fields? ["list_id", "references", "received"] .exact
      return .listReceived (← fs.get? "list_id") (← fs.get? "references") (← fs.get? "received")
    | some ("MessageFetchFailed", some content) => do
      let fs ← content.fields? ["message_id", "reason"] .exact
      return .messageFetchFailed (← fs.get? "message_id") (← fs.get? "reason")
    | some ("MessageListFetchFailed", some content) => do
      let fs ← content.fields? ["list_id", "reason"] .exact
      return .listFetchFailed (← fs.get? "list_id") (← fs.get? "reason")
    | some ("IdentityDeleted", some content) => do
      let fs ← content.fields? ["identity"] .exact
      return .identityDeleted (← fs.get? "identity")
    | some ("BoardUpdated", some content) => do
      let fs ← content.fields? ["board", "message_id"] .exact
      return .boardUpdated (← fs.get? "board") (← fs.get? "message_id")
    | some ("GhostResolved", some content) => do
      let fs ← content.fields? ["board", "message_id"] .exact
      return .ghostResolved (← fs.get? "board") (← fs.get? "message_id")
    | _ => none

end Noticeboard
