import Noticeboard.Message
import Noticeboard.Text.Marks
import Noticeboard.Text.Quoted

/-!
# Validation

Every message is checked before it reaches a board. One that fails is rejected for good: it is not
stored and not fetched again. `Message.validate` applies the rules in a fixed order, so that of two
faults the earlier rule is reported:

1. the author is the expected one, if one is expected;
2. the title and then the body are not too long;
3. the text of the title and then of the body is clean (`Text.check`);
4. there are not too many attachments;
5. there is at least one board and not too many;
6. a reply was written on one of its own boards;
7. the message names itself neither as parent nor as thread.
-/

namespace Noticeboard

/-- The most that a message may hold. -/
structure Limits where
  maxTitleChars : UInt64 := 256
  maxBodyBytes : UInt64 := 65536
  maxBoards : UInt64 := 16
  maxAttachments : UInt64 := 256
deriving DecidableEq

/-- A text of a message that is checked. -/
inductive TextField where
  | title
  | body
deriving DecidableEq

/-- The name of the field. -/
def TextField.name : TextField → String
  | title => "title"
  | body => "body"

/-- Why a message, an id or a board name was refused. -/
inductive ValidationError where
  | titleTooLong (length max : Nat)
  | bodyTooLong (length max : Nat)
  | controlCharacter (field : TextField) (code : Nat)
  | unbalancedMarks (field : TextField)
  | unpairedGloss (field : TextField)
  | noBoards
  | tooManyBoards (count max : Nat)
  | invalidBoardName (text : String)
  | replyToForeignBoard (board : BoardName)
  | selfReference (id : MessageId)
  | authorMismatch (expected found : IdentityId)
  | malformedId (text : String)
  | tooManyAttachments (count max : Nat)
deriving DecidableEq

namespace ValidationError

/-- A code point in at least four upper-case digits. -/
def codePoint (code : Nat) : String :=
  let digits := (Text.shortHex code).map Char.toUpper
  String.ofList (List.replicate (4 - digits.length) '0' ++ digits)

/-- The text shown to the user. -/
def message : ValidationError → String
  | titleTooLong length max =>
    "Title too long: " ++ toString length ++ " chars exceeds " ++ toString max
  | bodyTooLong length max =>
    "Body too long: " ++ toString length ++ " bytes exceeds " ++ toString max
  | controlCharacter field code => "Control character U+" ++ codePoint code ++ " in " ++ field.name
  | unbalancedMarks field => "Unbalanced bidi control characters in " ++ field.name
  | unpairedGloss field => "Unpaired annotation characters in " ++ field.name
  | noBoards => "Message targets no board"
  | tooManyBoards count max =>
    "Message targets " ++ toString count ++ " boards, limit is " ++ toString max
  | invalidBoardName text => "Invalid board name: " ++ Text.quoted text
  | replyToForeignBoard board => "Reply-to board " ++ board.text ++ " is not a target board"
  | selfReference id => "Message " ++ id.toText ++ " references itself"
  | authorMismatch expected found =>
    "Author mismatch: expected " ++ expected.toText ++ ", found " ++ found.toText
  | malformedId text => "Malformed id: " ++ text
  | tooManyAttachments count max =>
    "Too many attachments: " ++ toString count ++ " exceeds " ++ toString max

/-- The family of the error, as counted. -/
def label : ValidationError → String
  | titleTooLong .. | bodyTooLong .. => "oversize"
  | controlCharacter .. | unbalancedMarks _ | unpairedGloss _ => "text"
  | noBoards | tooManyBoards .. | invalidBoardName _ | replyToForeignBoard _ => "boards"
  | selfReference _ | authorMismatch .. | malformedId _ => "identity"
  | tooManyAttachments .. => "attachments"

/-- A fault in the text of a field. -/
def ofFault (field : TextField) : Text.Fault → ValidationError
  | .control code => controlCharacter field code
  | .unbalanced => unbalancedMarks field
  | .unpaired => unpairedGloss field

end ValidationError

/-- Reads a board name. -/
def BoardName.parse (text : String) : Except ValidationError BoardName :=
  match ofText? text with
  | some name => .ok name
  | none => .error (.invalidBoardName text)

/-- Checks the text of a field. -/
def TextField.check (field : TextField) (multiline : Bool) (text : String) :
    Except ValidationError Unit :=
  (Text.check multiline text).mapError (.ofFault field)

namespace Message

/-- Fails with an error unless a condition holds. -/
def require (condition : Bool) (error : ValidationError) : Except ValidationError Unit :=
  if condition then .ok () else .error error

/-- Checks that the author is the expected one, if one is expected. -/
def checkAuthor (m : Message) : Option IdentityId → Except ValidationError Unit
  | none => .ok ()
  | some expected => require (m.author == expected) (.authorMismatch expected m.author)

/-- Checks that a reply was written on one of its own boards. -/
def checkReplyBoard (m : Message) : Except ValidationError Unit :=
  match m.replyToBoard with
  | none => .ok ()
  | some board => require (m.targets board) (.replyToForeignBoard board)

/-- Applies the rules to a message, which `author?` is expected to have written. -/
def validate (m : Message) (author? : Option IdentityId) (limits : Limits) :
    Except ValidationError Unit := do
  m.checkAuthor author?
  require (m.title.length ≤ limits.maxTitleChars.toNat)
    (.titleTooLong m.title.length limits.maxTitleChars.toNat)
  require (m.body.utf8ByteSize ≤ limits.maxBodyBytes.toNat)
    (.bodyTooLong m.body.utf8ByteSize limits.maxBodyBytes.toNat)
  TextField.title.check false m.title
  TextField.body.check true m.body
  require (m.attachments.length ≤ limits.maxAttachments.toNat)
    (.tooManyAttachments m.attachments.length limits.maxAttachments.toNat)
  require (!m.boards.isEmpty) .noBoards
  require (m.boards.size ≤ limits.maxBoards.toNat)
    (.tooManyBoards m.boards.size limits.maxBoards.toNat)
  m.checkReplyBoard
  require (!m.namesItself) (.selfReference m.id)

end Message

/-! ## Fetching -/

/-- Why content could not be fetched for now; both reasons delay the next attempt alike. -/
inductive FetchReason where
  | notFound
  | transient
deriving DecidableEq

/-- How a fetch can fail. -/
inductive FetchError where
  | notFound (what : String)
  | transient (what : String)
  /-- The content was refused, which is never tried again. -/
  | invalid (error : ValidationError)
deriving DecidableEq

namespace FetchError

/-- The text shown to the user. -/
def message : FetchError → String
  | notFound what => "Content not found: " ++ what
  | transient what => "Transient fetch failure: " ++ what
  | invalid error => "Fetched content invalid: " ++ error.message

/-- Why to try again later, or nothing if it is not worth trying. -/
def reason? : FetchError → Option FetchReason
  | notFound _ => some .notFound
  | transient _ => some .transient
  | invalid _ => none

end FetchError

end Noticeboard
