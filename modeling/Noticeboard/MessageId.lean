import Noticeboard.Identity
import Noticeboard.Token

/-!
# Message ids

A message is known by its author and a token of the author's choice. Ids are ordered by author and
then by token, which settles every tie between equal dates. The written form is the token, an at
sign and the author; reading splits at the first at sign.
-/

namespace Noticeboard

/-- The name of a message, unique everywhere. -/
structure MessageId where
  author : IdentityId
  token : Token
deriving DecidableEq, Inhabited

namespace MessageId

instance : Ord MessageId := ⟨compareLex (compareOn author) (compareOn token)⟩

instance : Std.TransOrd MessageId :=
  inferInstanceAs (Std.TransCmp (compareLex (compareOn author) (compareOn token)))

instance : Std.LawfulEqOrd MessageId where
  eq_of_compare {a b} h := by
    obtain ⟨ha, ht⟩ := compareLex_eq_eq.1 h
    cases a; cases b
    exact congr (congrArg mk (Std.LawfulEqOrd.eq_of_compare (α := IdentityId) ha))
      (Std.LawfulEqOrd.eq_of_compare (α := Token) ht)

/-- The written form. -/
def toText (id : MessageId) : String := id.token.toText ++ "@" ++ id.author.toText

/-- Eight digits of token and author each, with the kind of value in front. -/
def label (id : MessageId) : String :=
  "MessageId(" ++ String.ofList (id.token.digits.take 8) ++ "@" ++ id.author.short ++ ")"

/-- The text before and after the first at sign. -/
def splitAt? (cs : List Char) : Option (String × String) :=
  match cs.dropWhile (· ≠ '@') with
  | _ :: rest => some (String.ofList (cs.takeWhile (· ≠ '@')), String.ofList rest)
  | [] => none

/-- Reads the written form, or returns the text that is not one: the author part if that part alone
is at fault, otherwise the whole. -/
def parse (text : String) : Except String MessageId :=
  match splitAt? text.toList with
  | none => .error text
  | some (token, author) =>
    match Token.ofText? token with
    | none => .error text
    | some token => (IdentityId.parse author).map fun author => { author, token }

end MessageId

/-- A set of message ids. -/
abbrev IdSet := Std.ExtTreeSet MessageId

/-- A map keyed by message ids. -/
abbrev IdMap (β : Type) := Std.ExtTreeMap MessageId β

end Noticeboard
