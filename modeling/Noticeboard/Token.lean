import Noticeboard.Text.Hex
import Std.Data.ExtTreeMap

/-!
# Tokens

A token is a 128-bit number drawn by the author of a message. It is written as 32 hexadecimal
digits in five groups joined by hyphens. Reading also takes the bare digits, the grouped form
between braces and the grouped form after `urn:uuid:`, with letters of either case throughout.
-/

namespace Noticeboard

/-- The part of a message id that its author chose. -/
structure Token where
  bits : BitVec 128
deriving DecidableEq, Inhabited

namespace Token

instance : Ord Token := ⟨compareOn bits⟩

instance : Std.TransOrd Token := inferInstanceAs (Std.TransCmp (compareOn bits))

instance : Std.LawfulEqOrd Token where
  eq_of_compare {a b} h := by
    cases a; cases b
    exact congrArg mk (Std.LawfulEqOrd.eq_of_compare (α := BitVec 128) h)

/-! ## Groups -/

/-- The lengths of the groups before the last one, which takes what remains. -/
def groups : List Nat := [8, 4, 4, 4]

/-- Sets a hyphen after each group. -/
def hyphenate : List Nat → List Char → List Char
  | [], cs => cs
  | n :: ns, cs => cs.take n ++ '-' :: hyphenate ns (cs.drop n)

/-- Takes the hyphens out again; each must stand right after its group. -/
def unhyphenate? : List Nat → List Char → Option (List Char)
  | [], cs => some cs
  | n :: ns, cs =>
    match cs.drop n with
    | '-' :: rest => (unhyphenate? ns rest).map (cs.take n ++ ·)
    | _ => none

/-! ## Text -/

/-- The 32 hexadecimal digits of a token. -/
def digits (t : Token) : List Char := Hex.digits 32 t.bits.toNat

/-- The written form. -/
def toText (t : Token) : String := String.ofList (hyphenate groups t.digits)

/-- Reads exactly 32 digits of either case. -/
def ofDigits? (cs : List Char) : Option Token :=
  if cs.length = 32 then (Hex.number? cs).map fun n => ⟨BitVec.ofNat 128 n⟩ else none

/-- The name of the resource scheme that may stand in front, in lower case. -/
def scheme : List Char := ['u', 'r', 'n', ':', 'u', 'u', 'i', 'd', ':']

/-- What stands between braces or after the scheme; anything else is left as it is. -/
def unwrap? (cs : List Char) : Option (List Char) :=
  match cs with
  | '\x7b' :: rest => if rest.getLast? = some '\x7d' then some rest.dropLast else none
  | _ =>
    if (cs.take scheme.length).map Char.toLower = scheme then some (cs.drop scheme.length)
    else some cs

/-- Reads any of the accepted forms. -/
def ofText? (text : String) : Option Token :=
  let cs := text.toList
  if cs.length = 32 then ofDigits? cs
  else (unwrap? cs).bind fun body => (unhyphenate? groups body).bind ofDigits?

end Token

end Noticeboard
