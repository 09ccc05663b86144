import Noticeboard.Text.Hex

/-!
# Reading notations

A reader takes what it reads from the front of a row of characters and gives what follows.
-/

namespace Noticeboard

/-- What was read and the characters behind it, if the characters at the front can be read. -/
abbrev Read (α : Type) := List Char → Option (α × List Char)

/-- What follows a row of characters, if it stands at the front. -/
def expect? (word cs : List Char) : Option (List Char) :=
  if word.isPrefixOf cs then some (cs.drop word.length) else none

/-- The number that a row of digits stands for; a digit that does not exist counts as zero. -/
def numeral (base : Nat) (ds : List Char) : Nat :=
  ds.foldl (fun n d => base * n + (Hex.value? d).getD 0) 0

end Noticeboard
