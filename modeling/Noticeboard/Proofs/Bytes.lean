import Noticeboard.Bytes
import Noticeboard.Proofs.Collections

/-!
# What is read of written bytes

A form is lawful when a value is read back from what was written of it and whatever follows is left
over. Numbers and texts have lawful forms, and forms made of lawful ones are lawful. Lengths and
counts are written in eight bytes, so the law asks that all that was written fits such a length; a
list stays below it because each of its elements writes at least one byte.
-/

namespace Noticeboard

namespace Bytes

theorem split?_append_of_length {front : Bytes} {n : Nat} (h : front.length = n) (rest : Bytes) :
    split? n (front ++ rest) = some (front, rest) := by
  subst h
  exact split?_append front rest

end Bytes

namespace Form

variable {α β : Type} {f : Form α} {g : Form β}

/-- A written value is read back, and what follows it is left over. -/
def Lawful (f : Form α) : Prop :=
  ∀ a rest, (f.write a).length < UInt64.size → f.read (f.write a ++ rest) = some (a, rest)

/-- Every value writes at least one byte. -/
def Solid (f : Form α) : Prop := ∀ a, 0 < (f.write a).length

/-- No written value begins another one. -/
theorem Lawful.delimited (hf : f.Lawful) {a b : α} {rest rest' : Bytes}
    (ha : (f.write a).length < UInt64.size) (hb : (f.write b).length < UInt64.size)
    (h : f.write a ++ rest = f.write b ++ rest') : a = b ∧ rest = rest' := by
  have hread : some (a, rest) = some (b, rest') := by
    rw [← hf a rest ha, ← hf b rest' hb, h]
  exact Prod.mk.inj (Option.some.inj hread)

/-! ## Numbers -/

theorem length_write_number (width n : Nat) : ((number width).write n).length = width :=
  Bytes.length_ofNat width n

theorem length_write_bits {width : Nat} (n : BitVec (8 * width)) :
    ((bits width).write n).length = width := by
  show (Bytes.ofNat width n.toNat).reverse.length = width
  rw [List.length_reverse, Bytes.length_ofNat]

theorem read_number {width n : Nat} (h : n < Nat.pow 256 width) (rest : Bytes) :
    (number width).read ((number width).write n ++ rest) = some (n, rest) := by
  have hn : Bytes.toNat (Bytes.ofNat width n) = n := Bytes.toNat_ofNat width n h
  simp only [number, Bytes.split?_append_of_length (Bytes.length_ofNat width n) rest,
    Option.map_some, hn]

theorem read_word64 {n : Nat} (h : n < UInt64.size) (rest : Bytes) :
    (number 8).read ((number 8).write n ++ rest) = some (n, rest) :=
  read_number (by omega) rest

theorem read_flag (b : Bool) (rest : Bytes) :
    flag.read (flag.write b ++ rest) = some (b, rest) := by
  cases b <;> rfl

theorem lawful_word64 : word64.Lawful := by
  intro a rest _
  simp only [word64, via, read_word64 a.toNat_lt rest, Option.bind_some, UInt64.ofNat_toNat,
    Option.map_some]

theorem lawful_word32 : word32.Lawful := by
  intro a rest _
  have ha : a.toNat < Nat.pow 256 4 := a.toNat_lt
  simp only [word32, via, read_number ha rest, Option.bind_some, UInt32.ofNat_toNat,
    Option.map_some]

theorem lawful_flag : flag.Lawful := fun b rest _ => read_flag b rest

theorem lawful_bits (width : Nat) : (bits width).Lawful := by
  intro n rest _
  have hn : n.toNat < Nat.pow 256 width := by
    have h := n.isLt
    rwa [Nat.pow_mul] at h
  have hback : Bytes.toNat (Bytes.ofNat width n.toNat) = n.toNat := Bytes.toNat_ofNat width _ hn
  have hsplit := Bytes.split?_append_of_length (length_write_bits n) rest
  simp only [bits] at hsplit ⊢
  rw [hsplit, Option.map_some, List.reverse_reverse, hback, BitVec.ofNat_toNat,
    BitVec.setWidth_eq]

/-! ## Combinations -/

theorem lawful_nothing : nothing.Lawful := fun _ _ _ => rfl

theorem Lawful.via (hf : f.Lawful) {parts : β → α} {of? : α → Option β}
    (h : ∀ b, of? (parts b) = some b) : (f.via parts of?).Lawful := by
  intro b rest hb
  have hread := hf (parts b) rest hb
  simp only [Form.via, hread, Option.bind_some, h, Option.map_some]

theorem Lawful.pair (hf : f.Lawful) (hg : g.Lawful) : (f.pair g).Lawful := by
  intro p rest hp
  simp only [Form.pair, List.length_append] at hp
  have hfirst := hf p.1 (g.write p.2 ++ rest) (by omega)
  have hsecond := hg p.2 rest (by omega)
  simp only [Form.pair, List.append_assoc, hfirst, Option.bind_some, hsecond, Option.map_some]

theorem Lawful.either (hf : f.Lawful) (hg : g.Lawful) : (f.either g).Lawful := by
  rintro (a | b) rest h <;> simp only [Form.either, List.length_append] at h
  · have htag := read_number (show 0 < Nat.pow 256 4 by decide) (f.write a ++ rest)
    have hread := hf a rest (by omega)
    simp only [number] at htag
    simp only [Form.either, number, List.append_assoc, htag, Option.bind_some, hread,
      Option.map_some]
  · have htag := read_number (show 1 < Nat.pow 256 4 by decide) (g.write b ++ rest)
    have hread := hg b rest (by omega)
    simp only [number] at htag
    simp only [Form.either, number, List.append_assoc, htag, Option.bind_some, hread,
      Option.map_some]

theorem Lawful.option (hf : f.Lawful) : f.option.Lawful := by
  rintro (_ | a) rest h
  · rfl
  · simp only [Form.option, List.length_append] at h
    have hread := hf a rest (by omega)
    simp only [Form.option, List.append_assoc, read_flag, Option.bind_some, hread, Option.map_some]

theorem lawful_block : block.Lawful := by
  intro bs rest h
  simp only [block, List.length_append, length_write_number] at h
  simp only [block, List.append_assoc, read_word64 (show bs.length < UInt64.size by omega),
    Option.bind_some, Bytes.split?_append]

theorem fromUTF8?_toUTF8 (s : String) : String.fromUTF8? s.toUTF8 = some s :=
  dif_pos s.isValidUTF8

theorem lawful_text : text.Lawful := lawful_block.via fromUTF8?_toUTF8

/-! ## Bytes that are there -/

theorem Solid.via (hf : f.Solid) (parts : β → α) (of? : α → Option β) : (f.via parts of?).Solid :=
  fun b => hf (parts b)

theorem Solid.pair (hf : f.Solid) (g : Form β) : (f.pair g).Solid := by
  intro p
  have := hf p.1
  simp only [Form.pair, List.length_append]
  omega

theorem solid_either (f : Form α) (g : Form β) : (f.either g).Solid := by
  rintro (a | b) <;> exact Nat.zero_lt_succ _

theorem solid_text : text.Solid := fun _ => Nat.zero_lt_succ _

theorem solid_bits {width : Nat} (h : 0 < width) : (bits width).Solid := by
  intro n
  rw [length_write_bits]
  exact h

/-! ## Collections -/

theorem Solid.length_le (hf : f.Solid) (as : List α) :
    as.length ≤ (as.flatMap f.write).length := by
  induction as with
  | nil => exact Nat.le_refl 0
  | cons a as ih =>
    have := hf a
    rw [List.flatMap_cons, List.length_append, List.length_cons]
    omega

theorem Lawful.readMany (hf : f.Lawful) (as : List α) (rest : Bytes)
    (h : (as.flatMap f.write).length < UInt64.size) :
    readMany f as.length (as.flatMap f.write ++ rest) = some (as, rest) := by
  induction as with
  | nil => rfl
  | cons a as ih =>
    rw [List.flatMap_cons, List.length_append] at h
    have hfirst := hf a (as.flatMap f.write ++ rest) (by omega)
    have hothers := ih (by omega)
    simp only [List.length_cons, List.flatMap_cons, List.append_assoc, Form.readMany, hfirst,
      Option.bind_some, hothers, Option.map_some]

theorem Lawful.list (hf : f.Lawful) (hs : f.Solid) : f.list.Lawful := by
  intro as rest h
  simp only [Form.list, List.length_append, length_write_number] at h
  have hcount := hs.length_le as
  have hmany := hf.readMany as rest (by omega)
  simp only [Form.list, List.append_assoc, read_word64 (show as.length < UInt64.size by omega),
    Option.bind_some, hmany]

section

variable [Ord α] [Std.TransOrd α] [Std.LawfulEqOrd α] [DecidableEq α]

theorem Lawful.set (hf : f.Lawful) (hs : f.Solid) : f.set.Lawful :=
  (hf.list hs).via fun s => congrArg some (ofList_toList_set s)

theorem Lawful.map (hf : f.Lawful) (hs : f.Solid) (hg : g.Lawful) : (f.map g).Lawful :=
  ((hf.pair hg).list (hs.pair g)).via fun m => congrArg some (ofList_toList m)

end

end Form

end Noticeboard
