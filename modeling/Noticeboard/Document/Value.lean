import Std.Data.ExtTreeMap
import Std.Data.ExtTreeSet

/-!
# Documents

A `Value` is what a document says, whatever notation it is written in. A type with a `Shape` has its
values written as documents and read back. A record is read from its fields by name or one after
another in order; a field that nobody knows is passed over, but none may be given twice.
-/

namespace Noticeboard

/-- What a document says. -/
inductive Value where
  | null
  | bool (b : Bool)
  | whole (n : Int)
  /-- Any number that is not written as a whole one. -/
  | fraction
  /-- A date or a time of day. -/
  | moment
  /-- Nothing stands for text with a character that is only half there. -/
  | text (s : Option String)
  | array (items : List Value)
  | object (entries : List (Option String × Value))

namespace Value

/-- Text. -/
def ofText (s : String) : Value := text (some s)

/-- Named fields. -/
def record (fields : List (String × Value)) : Value :=
  object (fields.map fun (name, v) => (some name, v))

/-- One of several choices, with what it holds. -/
def choice (name : String) (content : Value) : Value := record [(name, content)]

/-- The choice that a value makes, and what the choice holds, if anything. -/
def choice? : Value → Option (String × Option Value)
  | text (some name) => some (name, none)
  | object [(some name, content)] => some (name, some content)
  | _ => none

/-- The choice that a value makes, if the choice holds nothing. -/
def bare? (v : Value) : Option String :=
  match v.choice? with
  | some (name, none) | some (name, some .null) => some name
  | _ => none

end Value

/-! ## Fields -/

/-- The fields that were given for a record. -/
abbrev Fields := List (String × Value)

/-- How many values in a row stand for a record. -/
inductive Arity where
  /-- One for each field. -/
  | exact
  /-- No more than there are fields; the last ones may be left out. -/
  | atMost
  /-- As many as there are; those without a field are passed over. -/
  | any
deriving DecidableEq

namespace Arity

/-- Whether so many values may stand for so many fields. -/
def admits (a : Arity) (values fields : Nat) : Bool :=
  match a with
  | exact => values == fields
  | atMost => values ≤ fields
  | any => true

end Arity

namespace Value

/-- The entries under known names, if every name is text and no known one comes twice. -/
def known? (names : List String) : List (Option String × Value) → Option Fields
  | [] => some []
  | (none, _) :: _ => none
  | (some name, v) :: rest =>
    (known? names rest).bind fun fields =>
      if names.contains name then
        if fields.any (·.1 == name) then none else some ((name, v) :: fields)
      else some fields

/-- The fields of a record. A date has none that anything asks for. -/
def fields? (names : List String) (arity : Arity) : Value → Option Fields
  | object entries => known? names entries
  | array items => if arity.admits items.length names.length then some (names.zip items) else none
  | moment => some []
  | _ => none

end Value

/-! ## Shapes -/

/-- Types whose values are written as documents and read back. -/
class Shape (α : Type) where
  toValue : α → Value
  ofValue? : Value → Option α
  /-- What a field stands for that is not given. -/
  ofNothing? : Option α := none

export Shape (toValue)

namespace Fields

variable {α : Type} [Shape α]

/-- The value of a field. -/
def get? (fs : Fields) (name : String) : Option α :=
  match fs.lookup name with
  | some v => Shape.ofValue? v
  | none => Shape.ofNothing?

/-- The value of a field that has a default. -/
def getD? (fs : Fields) (name : String) (d : α) : Option α :=
  match fs.lookup name with
  | some v => Shape.ofValue? v
  | none => some d

end Fields

namespace Value

/-- A whole number below a bound. -/
def nat? (bound : Nat) : Value → Option Nat
  | whole (.ofNat n) => if n < bound then some n else none
  | _ => none

end Value

instance : Shape Bool where
  toValue := .bool
  ofValue?
    | .bool b => some b
    | _ => none

/-- Counts have 64 bits. -/
instance : Shape Nat where
  toValue n := .whole n
  ofValue? v := v.nat? UInt64.size

instance : Shape UInt8 where
  toValue n := .whole n.toNat
  ofValue? v := (v.nat? UInt8.size).map UInt8.ofNat

instance : Shape UInt32 where
  toValue n := .whole n.toNat
  ofValue? v := (v.nat? UInt32.size).map UInt32.ofNat

instance : Shape UInt64 where
  toValue n := .whole n.toNat
  ofValue? v := (v.nat? UInt64.size).map UInt64.ofNat

instance : Shape String where
  toValue := .ofText
  ofValue?
    | .text s => s
    | _ => none

instance {α : Type} [Shape α] : Shape (Option α) where
  toValue
    | none => .null
    | some a => toValue a
  ofValue?
    | .null => some none
    | v => (Shape.ofValue? v).map some
  ofNothing? := some none

instance {α : Type} [Shape α] : Shape (List α) where
  toValue as := .array (as.map toValue)
  ofValue?
    | .array items => items.mapM Shape.ofValue?
    | _ => none

instance {α : Type} [Ord α] [Std.TransOrd α] [Shape α] : Shape (Std.ExtTreeSet α) where
  toValue s := toValue s.toList
  ofValue? v := (Shape.ofValue? v : Option (List α)).map fun as => .ofList as

namespace Shape

/-- The shape of choices that hold nothing and go by their names. -/
@[reducible] def ofNames {α : Type} (name : α → String) (all : List α) : Shape α where
  toValue a := .ofText (name a)
  ofValue? v := v.bare?.bind fun s => all.find? fun a => name a == s

/-- The shape of a table with text for its keys. If a key comes twice, its last value counts. -/
@[reducible] def table {κ α : Type} [Ord κ] [Std.TransOrd κ] [Shape α] (name : κ → String)
    (key? : String → Option κ) : Shape (Std.ExtTreeMap κ α) where
  toValue m := .object (m.toList.map fun (k, a) => (some (name k), toValue a))
  ofValue?
    | .object entries => do
      return .ofList (← entries.mapM fun (k, v) => return (← k.bind key?, ← ofValue? v))
    | _ => none

/-- The shape of a table whose keys are more than text. As no name is such a key, only the empty
table can be read back. -/
@[reducible] def closed {κ α : Type} [Ord κ] [Std.TransOrd κ] [Shape α] (name : κ → String) :
    Shape (Std.ExtTreeMap κ α) :=
  table name fun _ => none

end Shape

end Noticeboard
