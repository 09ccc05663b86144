import Noticeboard.Message

/-!
# Known announcement lists

The index keeps every accepted list, the lists that announce each message, and the messages that
have been downloaded. A message may be downloaded before it is announced, so downloads are on record
apart from the lists, and a reference to a downloaded message is never wanted.

`ListIndex.receive` accepts a list and says which messages it makes wanted. A list is refused as a
whole if it is too long or announces a message by another author.
-/

namespace Noticeboard

/-- What is asked of lists. -/
structure ListLimits where
  /-- The most references in one list. -/
  maxReferences : UInt64 := 4096
  /-- How far below the latest edition missing ones are looked for. -/
  gapWindow : UInt64 := 64
deriving DecidableEq

/-- Why a list was refused. -/
inductive ListError where
  | foreignReference (list : ListId) (message : MessageId)
  | tooManyReferences (list : ListId) (count max : Nat)
deriving DecidableEq

/-- The text shown to the user. -/
def ListError.message : ListError → String
  | foreignReference list id =>
    "List " ++ list.toText ++ " references foreign message " ++ id.toText
  | tooManyReferences list count max =>
    "List " ++ list.toText ++ " has " ++ toString count ++ " references, limit is " ++ toString max

/-- All accepted lists. -/
structure ListIndex where
  lists : ListMap MessageList
  /-- The lists that announce each message. -/
  announced : IdMap (Std.ExtTreeSet ListId)
  downloaded : IdSet
deriving DecidableEq

/-- What the removal of an author took out of the index. -/
structure RemovedLists where
  lists : List ListId
  references : Nat
deriving DecidableEq

namespace ListIndex

/-- An index without lists. -/
def empty : ListIndex := ⟨∅, ∅, ∅⟩

/-! ## Receiving -/

/-- Checks a list that is not known yet. -/
def check (limits : ListLimits) (id : ListId) (references : List Announcement) :
    Except ListError Unit :=
  if references.length ≤ limits.maxReferences.toNat then
    match references.find? (·.message.author != id.author) with
    | some r => .error (.foreignReference id r.message)
    | none => .ok ()
  else .error (.tooManyReferences id references.length limits.maxReferences.toNat)

/-- The first reference to each message that is not in `seen`. -/
def firstMentions (seen : IdSet) : List Announcement → List Announcement
  | [] => []
  | r :: rest =>
    if seen.contains r.message then firstMentions seen rest
    else r :: firstMentions (seen.insert r.message) rest

/-- The references of a list as the index keeps them: one for each message, flagged by what has been
downloaded. -/
def kept (ix : ListIndex) (references : List Announcement) : List Announcement :=
  (firstMentions ∅ references).map fun r =>
    { r with downloaded := ix.downloaded.contains r.message }

/-- The messages that a list makes wanted: neither downloaded nor announced so far. -/
def newlyWanted (ix : ListIndex) (references : List Announcement) : List MessageId :=
  ((ix.kept references).filter fun r => !r.downloaded && !ix.announced.contains r.message).map
    (·.message)

/-- Adds a list to those that announce its messages. -/
def announce (announced : IdMap (Std.ExtTreeSet ListId)) (id : ListId)
    (references : List Announcement) : IdMap (Std.ExtTreeSet ListId) :=
  references.foldl
    (fun a r => a.alter r.message fun lists => some ((lists.getD ∅).insert id)) announced

/-- Takes a received list and gives the messages that it makes wanted. A list that is known already
changes nothing. -/
def receive (ix : ListIndex) (limits : ListLimits) (id : ListId) (references : List Announcement)
    (received : Timestamp) : Except ListError (ListIndex × List MessageId) :=
  if ix.lists.contains id then .ok (ix, [])
  else
    match check limits id references with
    | .error e => .error e
    | .ok () =>
      let references' := ix.kept references
      .ok ({ ix with
              lists := ix.lists.insert id { id, received, references := references' }
              announced := announce ix.announced id references' },
        ix.newlyWanted references)

/-- Puts back a list as it was kept, with its flags. -/
def restore (ix : ListIndex) (l : MessageList) : ListIndex where
  lists := ix.lists.insert l.id l
  announced := announce ix.announced l.id l.references
  downloaded := ix.downloaded.insertMany
    ((l.references.filter (·.downloaded)).map (·.message))

/-! ## Downloads -/

/-- Flags every reference to a message as downloaded. -/
def flag (id : MessageId) (l : MessageList) : MessageList :=
  { l with references := l.references.map fun r =>
      if r.message = id then { r with downloaded := true } else r }

/-- The lists that announce a message. -/
def announcing (ix : ListIndex) (id : MessageId) : List ListId :=
  match ix.announced[id]? with
  | some lists => lists.toList
  | none => []

/-- Records a download. Also tells whether it is the first of its message. -/
def markDownloaded (ix : ListIndex) (id : MessageId) : ListIndex × Bool :=
  if ix.downloaded.contains id then (ix, false)
  else
    ({ ix with
        downloaded := ix.downloaded.insert id
        lists := (ix.announcing id).foldl (fun ls list => ls.modify list (flag id)) ix.lists },
      true)

/-- Of two references to a message, the one announced earlier; of equal ones the one known first. -/
def earlierOf (known : Option Announcement) (r : Announcement) : Announcement :=
  match known with
  | none => r
  | some k => if r.announced < k.announced then r else k

/-- One reference to each wanted message, the earliest announced. -/
def wanted (ix : ListIndex) : IdMap Announcement :=
  (ix.lists.toList.flatMap fun (_, l) => l.references.filter (!·.downloaded)).foldl
    (fun pending r => pending.alter r.message fun known => some (earlierOf known r)) ∅

/-- The order in which wanted messages are fetched: by announcement, then by id. -/
def fetchesBefore (a b : Announcement) : Bool :=
  (compareLex (compareOn Announcement.announced) (compareOn Announcement.message) a b).isLE

/-- The wanted messages in the order in which to fetch them. -/
def toFetch (ix : ListIndex) : List Announcement :=
  (ix.wanted.toList.map (·.2)).mergeSort fetchesBefore

/-! ## Authors -/

/-- The lists of an author, by edition. -/
def listsOf (ix : ListIndex) (author : IdentityId) : List MessageList :=
  (ix.lists.toList.map (·.2)).filter (·.id.author == author)

/-- The latest edition of an author. -/
def latestEdition? (ix : ListIndex) (author : IdentityId) : Option UInt64 :=
  ((ix.listsOf author).map (·.id.edition)).max?

/-- The editions below the latest one that are not known, as far back as the window reaches. -/
def missingEditions (ix : ListIndex) (limits : ListLimits) (author : IdentityId) : List UInt64 :=
  match ix.latestEdition? author with
  | none => []
  | some latest =>
    let lowest := latest.toNat - limits.gapWindow.toNat
    ((List.range' lowest (latest.toNat - lowest)).map UInt64.ofNat).filter fun edition =>
      !ix.lists.contains ⟨author, edition⟩

/-- The number of lists of an author and of the references in them. -/
def countOf (ix : ListIndex) (author : IdentityId) : Nat × Nat :=
  let ls := ix.listsOf author
  (ls.length, (ls.map (·.references.length)).foldl (· + ·) 0)

/-- Takes a list off those that announce its messages. -/
def retract (announced : IdMap (Std.ExtTreeSet ListId)) (id : ListId)
    (references : List Announcement) : IdMap (Std.ExtTreeSet ListId) :=
  references.foldl
    (fun a r => a.alter r.message fun lists =>
      lists.bind fun lists =>
        let lists := lists.erase id
        if lists.isEmpty then none else some lists) announced

/-- Removes everything by an author: lists, references and downloads. -/
def removeAuthor (ix : ListIndex) (author : IdentityId) : ListIndex × RemovedLists :=
  let ls := ix.listsOf author
  ({ lists := ix.lists.filter fun id _ => id.author != author
     announced := ls.foldl (fun a l => retract a l.id l.references) ix.announced
     downloaded := ix.downloaded.filter (·.author != author) },
    { lists := ls.map (·.id), references := (ls.map (·.references.length)).foldl (· + ·) 0 })

end ListIndex

end Noticeboard
