/-!
# Hexadecimal digits

Numbers of a fixed width are written with lower-case digits, most significant first, and read back
from digits of either case. `number?_digits` says that reading undoes writing.
-/

namespace Noticeboard.Hex

/-- The lower-case digit of a value below sixteen. -/
def digit (n : Nat) : Char :=
  if n < 10 then Char.ofNat (48 + n) else Char.ofNat (87 + n)

/-- The value of a digit of either case. -/
def value? (c : Char) : Option Nat :=
  if '0' ≤ c ∧ c ≤ '9' then some (c.toNat - 48)
  else if 'a' ≤ c ∧ c ≤ 'f' then some (c.toNat - 87)
  else if 'A' ≤ c ∧ c ≤ 'F' then some (c.toNat - 55)
  else none

/-- The lowest `width` digits of `n`. -/
def digits : Nat → Nat → List Char
  | 0, _ => []
  | width + 1, n => digits width (n / 16) ++ [digit (n % 16)]

/-- The number that a row of digits stands for; a row of none is zero. -/
def number? (cs : List Char) : Option Nat :=
  cs.foldlM (fun n c => (value? c).map (16 * n + ·)) 0

@[simp] theorem length_digits (width n : Nat) : (digits width n).length = width := by
  induction width generalizing n with
  | zero => rfl
  | succ w ih => simp [digits, ih]

theorem value?_digit {n : Nat} (h : n < 16) : value? (digit n) = some n := by
  have : ∀ m : Fin 16, value? (digit m) = some m.val := by decide
  exact this ⟨n, h⟩

theorem number?_concat (cs : List Char) (c : Char) :
    number? (cs ++ [c]) = (number? cs).bind fun n => (value? c).map (16 * n + ·) := by
  unfold number?
  rw [List.foldlM_append]
  cases List.foldlM (fun n c => (value? c).map (16 * n + ·)) 0 cs <;> simp

/-- Reading the digits of a number that fits gives the number. -/
theorem number?_digits (width n : Nat) (h : n < Nat.pow 16 width) :
    number? (digits width n) = some n := by
  induction width generalizing n with
  | zero =>
    have : n = 0 := by simpa using h
    subst this
    rfl
  | succ w ih =>
    have hw : n / 16 < Nat.pow 16 w := by
      rw [Nat.pow_eq, Nat.pow_succ] at h
      rw [Nat.pow_eq]
      omega
    rw [digits, number?_concat, ih _ hw, Option.bind_some, value?_digit (Nat.mod_lt _ (by decide))]
    simp only [Option.map_some, Option.some.injEq]
    omega

end Noticeboard.Hex
