import Std.Data.ExtTreeMap
import Std.Data.ExtTreeSet

/-!
# Board names

A board is named by one to 64 lower-case letters, digits, dots, hyphens and underscores. The name
begins and ends with a letter or digit and has no two dots in a row. A `BoardName` carries the proof
that its text is such a name, so whatever holds one need not check it again.
-/

namespace Noticeboard

namespace BoardName

/-- The most characters a name may have. -/
def maxLength : Nat := 64

/-- Characters that may begin and end a name. -/
def isEdge (c : Char) : Bool := c.isLower || c.isDigit

/-- Characters that may stand anywhere inside a name. -/
def isInner (c : Char) : Bool := isEdge c || c == '.' || c == '-' || c == '_'

/-- Whether two dots follow each other. -/
def hasDoubleDot : List Char → Bool
  | '.' :: '.' :: _ => true
  | _ :: rest => hasDoubleDot rest
  | [] => false

/-- The rule for names. -/
def isValid (text : String) : Bool :=
  let cs := text.toList
  !cs.isEmpty && cs.length ≤ maxLength && cs.all isInner && cs.head?.any isEdge &&
    cs.getLast?.any isEdge && !hasDoubleDot cs

end BoardName

/-- A valid name of a board. -/
structure BoardName where
  text : String
  valid : BoardName.isValid text = true
deriving DecidableEq

namespace BoardName

instance : Ord BoardName := ⟨compareOn text⟩

instance : Std.TransOrd BoardName := inferInstanceAs (Std.TransCmp (compareOn text))

theorem ext {a b : BoardName} (h : a.text = b.text) : a = b := by
  cases a; cases b
  simpa using h

instance : Std.LawfulEqOrd BoardName where
  eq_of_compare {_ _} h := ext (Std.LawfulEqOrd.eq_of_compare (α := String) h)

/-- The name that a text spells, if it spells one. -/
def ofText? (text : String) : Option BoardName :=
  if h : isValid text then some ⟨text, h⟩ else none

/-- The name with the kind of value in front. -/
def label (b : BoardName) : String := "BoardName(" ++ b.text ++ ")"

end BoardName

/-- A set of board names. -/
abbrev BoardSet := Std.ExtTreeSet BoardName

/-- A map keyed by board names. -/
abbrev BoardMap (β : Type) := Std.ExtTreeMap BoardName β

end Noticeboard
