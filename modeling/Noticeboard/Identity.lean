import Noticeboard.Text.Hex
import Std.Data.ExtTreeMap
import Std.Data.ExtTreeSet

/-!
# Identities

An identity is known by the 256-bit hash of its public key. Identities are ordered by that number,
which is the order of its bytes, and written as 64 hexadecimal digits.

`Identity` is what the program sees of a person: one of the local user's own identities, which
always has a nickname, or a remote one, which may have none.
-/

namespace Noticeboard

/-- The public name of a pseudonymous identity. -/
structure IdentityId where
  bits : BitVec 256
deriving DecidableEq, Inhabited

namespace IdentityId

instance : Ord IdentityId := ⟨compareOn bits⟩

instance : Std.TransOrd IdentityId := inferInstanceAs (Std.TransCmp (compareOn bits))

instance : Std.LawfulEqOrd IdentityId where
  eq_of_compare {a b} h := by
    cases a; cases b
    exact congrArg mk (Std.LawfulEqOrd.eq_of_compare (α := BitVec 256) h)

/-- The 64 hexadecimal digits of an identity. -/
def digits (id : IdentityId) : List Char := Hex.digits 64 id.bits.toNat

/-- The written form. -/
def toText (id : IdentityId) : String := String.ofList id.digits

/-- The first eight digits, for short displays. -/
def short (id : IdentityId) : String := String.ofList (id.digits.take 8)

/-- The short form with the kind of value in front. -/
def label (id : IdentityId) : String := "IdentityId(" ++ id.short ++ ")"

/-- Reads exactly 64 digits of either case. -/
def ofDigits? (cs : List Char) : Option IdentityId :=
  if cs.length = 64 then (Hex.number? cs).map fun n => ⟨BitVec.ofNat 256 n⟩ else none

/-- Reads the written form, or returns the text that is not one. -/
def parse (text : String) : Except String IdentityId :=
  match ofDigits? text.toList with
  | some id => .ok id
  | none => .error text

end IdentityId

/-- An identity controlled by the local user. -/
structure OwnIdentity where
  id : IdentityId
  nickname : String
deriving DecidableEq

/-- An identity learned from the network, which may have published a nickname. -/
structure RemoteIdentity where
  id : IdentityId
  nickname : Option String
deriving DecidableEq

/-- A person as the program sees one. -/
inductive Identity where
  | own (i : OwnIdentity)
  | remote (i : RemoteIdentity)
deriving DecidableEq

namespace Identity

/-- The public name. -/
def id : Identity → IdentityId
  | own i => i.id
  | remote i => i.id

/-- The nickname, if one was published. -/
def nickname? : Identity → Option String
  | own i => some i.nickname
  | remote i => i.nickname

/-- Whether the local user controls the identity. -/
def isOwn : Identity → Bool
  | own _ => true
  | remote _ => false

end Identity

end Noticeboard
