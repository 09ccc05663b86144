import Noticeboard.MessageId
import Noticeboard.BoardName

/-!
# Subscriptions and trust

Each of the local user's identities follows some boards and hides some authors. Both are kept as
sets by viewer, and a viewer with an empty set is not kept. `Trust` is the question a view asks for
each message: does this viewer want to read this author?
-/

namespace Noticeboard

/-- Sets kept by viewer; none of them is empty. -/
abbrev ByViewer (α : Type) [Ord α] := Std.ExtTreeMap IdentityId (Std.ExtTreeSet α)

namespace ByViewer

variable {α : Type} [Ord α] [Std.TransOrd α]

/-- What a viewer has. -/
def of (s : ByViewer α) (viewer : IdentityId) : Std.ExtTreeSet α := s[viewer]?.getD ∅

/-- Whether a viewer has an element. -/
def has (s : ByViewer α) (viewer : IdentityId) (a : α) : Bool := (of s viewer).contains a

/-- Gives an element to a viewer. Also tells whether it is new. -/
def add (s : ByViewer α) (viewer : IdentityId) (a : α) : ByViewer α × Bool :=
  (s.insert viewer ((of s viewer).insert a), !has s viewer a)

/-- Takes an element from a viewer. Also tells whether the viewer had it. -/
def drop (s : ByViewer α) (viewer : IdentityId) (a : α) : ByViewer α × Bool :=
  let left := (of s viewer).erase a
  (if left.isEmpty then s.erase viewer else s.insert viewer left, has s viewer a)

/-- The viewers that have an element, ascending. -/
def holders (s : ByViewer α) (a : α) : List IdentityId :=
  (s.filter fun _ set => set.contains a).keys

/-- The number of elements over all viewers. -/
def total (s : ByViewer α) : Nat := (s.toList.map fun (_, set) => set.size).foldl (· + ·) 0

end ByViewer

/-- Named for the derived equality of records that have sets of boards. -/
instance : LawfulBEq BoardSet := inferInstance

/-- The boards that each viewer follows. -/
abbrev Subscriptions := ByViewer BoardName

/-- Whether a viewer wants to read an author. -/
abbrev Trust := IdentityId → IdentityId → Bool

namespace Trust

/-- Every author is wanted. -/
def everyone : Trust := fun _ _ => true

end Trust

/-- The authors that each viewer hides. -/
abbrev BlockList := ByViewer IdentityId

/-- An author is wanted unless the viewer hides it. -/
def BlockList.trust (b : BlockList) : Trust := fun viewer author => !ByViewer.has b viewer author

end Noticeboard
