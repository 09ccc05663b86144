import Std.Data.ExtTreeMap
import Std.Data.ExtTreeSet

/-!
# Byte forms

A `Form` writes values as bytes and reads them back from the front of what is left to read. Numbers
have a fixed width and come with the lowest byte first. Text and collections come behind their
length, and a choice between two forms behind the number of the one taken. No form needs a mark for
its end, so forms may be put one behind the other.
-/

namespace Noticeboard

/-- A row of bytes. -/
abbrev Bytes := List UInt8

namespace Bytes

/-- The lowest `width` bytes of a number, lowest first. -/
def ofNat : Nat → Nat → Bytes
  | 0, _ => []
  | width + 1, n => UInt8.ofNat n :: ofNat width (n / 256)

/-- The number that a row of bytes stands for, lowest first. -/
def toNat : Bytes → Nat
  | [] => 0
  | b :: bs => b.toNat + 256 * toNat bs

/-- The first `n` bytes and the rest, if there are so many. -/
def split? : Nat → Bytes → Option (Bytes × Bytes)
  | 0, bs => some ([], bs)
  | _ + 1, [] => none
  | n + 1, b :: bs => (split? n bs).map fun (front, rest) => (b :: front, rest)

@[simp] theorem length_ofNat (width n : Nat) : (ofNat width n).length = width := by
  induction width generalizing n with
  | zero => rfl
  | succ w ih => simp [ofNat, ih]

theorem toNat_ofNat (width n : Nat) (h : n < Nat.pow 256 width) : toNat (ofNat width n) = n := by
  induction width generalizing n with
  | zero =>
    have : n = 0 := by simpa using h
    simp [ofNat, toNat, this]
  | succ w ih =>
    have hw : n / 256 < Nat.pow 256 w := by
      rw [Nat.pow_eq, Nat.pow_succ] at h
      rw [Nat.pow_eq]
      omega
    simp only [ofNat, toNat, ih _ hw, UInt8.toNat_ofNat']
    omega

@[simp] theorem split?_append (front rest : Bytes) :
    split? front.length (front ++ rest) = some (front, rest) := by
  induction front with
  | nil => rfl
  | cons b front ih => simp [split?, ih]

end Bytes

/-- A way to write values as bytes and to read them back. -/
structure Form (α : Type) where
  write : α → Bytes
  /-- Reads a value from the front and gives what follows it. -/
  read : Bytes → Option (α × Bytes)

namespace Form

variable {α β : Type}

/-! ## Numbers -/

/-- A number of `width` bytes. -/
def number (width : Nat) : Form Nat where
  write := Bytes.ofNat width
  read bs := (Bytes.split? width bs).map fun (front, rest) => (Bytes.toNat front, rest)

/-- The same values in another type: `parts` takes one apart for writing, and `of?` puts one
together after reading, if it accepts what was read. -/
def via (f : Form α) (parts : β → α) (of? : α → Option β) : Form β where
  write b := f.write (parts b)
  read bs := (f.read bs).bind fun (a, rest) => (of? a).map (·, rest)

/-- A word of eight bytes. -/
def word64 : Form UInt64 := (number 8).via UInt64.toNat fun n => some (UInt64.ofNat n)

/-- A word of four bytes. -/
def word32 : Form UInt32 := (number 4).via UInt32.toNat fun n => some (UInt32.ofNat n)

/-- A truth value in one byte, which is zero or one. -/
def flag : Form Bool := (number 1).via Bool.toNat fun
  | 0 => some false
  | 1 => some true
  | _ => none

/-- A number of `width` bytes with the highest byte first. -/
def bits (width : Nat) : Form (BitVec (8 * width)) where
  write n := (Bytes.ofNat width n.toNat).reverse
  read bs := (Bytes.split? width bs).map fun (front, rest) =>
    (BitVec.ofNat (8 * width) (Bytes.toNat front.reverse), rest)

/-! ## Combinations -/

/-- Nothing at all. -/
def nothing : Form Unit := ⟨fun _ => [], fun bs => some ((), bs)⟩

/-- One value behind another. -/
def pair (f : Form α) (g : Form β) : Form (α × β) where
  write p := f.write p.1 ++ g.write p.2
  read bs := (f.read bs).bind fun (a, bs) => (g.read bs).map fun (b, bs) => ((a, b), bs)

/-- A value of either of two forms, behind the number of the form in four bytes. -/
def either (f : Form α) (g : Form β) : Form (α ⊕ β) where
  write
    | .inl a => Bytes.ofNat 4 0 ++ f.write a
    | .inr b => Bytes.ofNat 4 1 ++ g.write b
  read bs := ((number 4).read bs).bind fun
    | (0, bs) => (f.read bs).map fun (a, bs) => (.inl a, bs)
    | (1, bs) => (g.read bs).map fun (b, bs) => (.inr b, bs)
    | _ => none

/-- A value that may be missing, behind a flag. -/
def option (f : Form α) : Form (Option α) where
  write
    | none => flag.write false
    | some a => flag.write true ++ f.write a
  read bs := (flag.read bs).bind fun
    | (false, bs) => some (none, bs)
    | (true, bs) => (f.read bs).map fun (a, bs) => (some a, bs)

/-- Reads a number of values one behind the other. -/
def readMany (f : Form α) : Nat → Bytes → Option (List α × Bytes)
  | 0, bs => some ([], bs)
  | n + 1, bs => (f.read bs).bind fun (a, bs) =>
    (readMany f n bs).map fun (rest, bs) => (a :: rest, bs)

/-- Values one behind the other, behind their number. -/
def list (f : Form α) : Form (List α) where
  write as := (number 8).write as.length ++ as.flatMap f.write
  read bs := ((number 8).read bs).bind fun (n, bs) => readMany f n bs

/-- A row of bytes behind its length. -/
def block : Form Bytes where
  write bs := (number 8).write bs.length ++ bs
  read bs := ((number 8).read bs).bind fun (n, bs) => Bytes.split? n bs

/-- Text as its encoding in UTF-8. -/
def text : Form String :=
  block.via (fun s => s.toUTF8.data.toList) fun bs => String.fromUTF8? ⟨bs.toArray⟩

/-! ## Sets and maps -/

/-- A set, written in ascending order and read in any. -/
def set [Ord α] [Std.TransOrd α] (f : Form α) : Form (Std.ExtTreeSet α) :=
  f.list.via (fun s => s.toList) fun as => some (.ofList as)

/-- A map, written in ascending order of the keys and read in any; of equal keys the last counts. -/
def map [Ord α] [Std.TransOrd α] (f : Form α) (g : Form β) : Form (Std.ExtTreeMap α β) :=
  (f.pair g).list.via (fun m => m.toList) fun entries => some (.ofList entries)

end Form

end Noticeboard
