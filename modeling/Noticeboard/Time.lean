/-!
# Time

Moments and delays are whole seconds in 64-bit words. Adding a delay stops at the last moment that
a word can hold, and the distance to a moment still ahead is zero. A multiple of a delay stops at the
longest one.
-/

namespace Noticeboard

/-- A number cut off at the largest word. -/
theorem toNat_ofNat_min (n : Nat) :
    (UInt64.ofNat (min n (UInt64.size - 1))).toNat = min n (UInt64.size - 1) := by
  simp only [UInt64.toNat_ofNat', UInt64.size]
  omega

/-- Seconds since the epoch. -/
abbrev Timestamp := UInt64

namespace Timestamp

/-- The last moment a word can hold. -/
def last : Timestamp := UInt64.ofNat (UInt64.size - 1)

/-- The moment `delay` seconds after `t`, or the last moment if it lies beyond. -/
def after (t : Timestamp) (delay : UInt64) : Timestamp :=
  UInt64.ofNat (min (t.toNat + delay.toNat) (UInt64.size - 1))

/-- The seconds from `start` up to `t`, zero if `t` comes first. -/
def since (t start : Timestamp) : UInt64 :=
  UInt64.ofNat (t.toNat - start.toNat)

theorem toNat_after (t : Timestamp) (delay : UInt64) :
    (t.after delay).toNat = min (t.toNat + delay.toNat) (UInt64.size - 1) :=
  toNat_ofNat_min _

theorem toNat_since (t start : Timestamp) : (t.since start).toNat = t.toNat - start.toNat := by
  have := t.toNat_lt
  simp only [since, UInt64.toNat_ofNat']
  omega

end Timestamp

namespace Delay

/-- The longest delay a word can hold. -/
def longest : UInt64 := UInt64.ofNat (UInt64.size - 1)

/-- A word with its bits moved up `n` places, where those that leave the word are lost; nothing if a
word has no more than `n` places. -/
def shiftLeft? (word : UInt64) (n : UInt32) : Option UInt64 :=
  if n < 64 then some (word <<< n.toUInt64) else none

/-- The delay `factor` times as long, or the longest delay if it lies beyond. -/
def times (delay factor : UInt64) : UInt64 :=
  UInt64.ofNat (min (delay.toNat * factor.toNat) (UInt64.size - 1))

/-- One doubled `n` times, or the longest delay if it lies beyond. -/
theorem toNat_shiftLeft?_one (n : UInt32) :
    ((shiftLeft? 1 n).getD longest).toNat = min (1 <<< n.toNat) (UInt64.size - 1) := by
  have hsize : UInt64.size = 2 ^ 64 := rfl
  rw [Nat.one_shiftLeft, shiftLeft?]
  split
  · next hn =>
    have hn : n.toNat < 64 := UInt32.lt_iff_toNat_lt.1 hn
    have hpow : 2 ^ n.toNat ≤ 2 ^ 63 := Nat.pow_le_pow_right (by decide) (by omega)
    rw [Option.getD_some, UInt64.toNat_shiftLeft, UInt32.toNat_toUInt64, Nat.mod_eq_of_lt hn,
      UInt64.toNat_one, Nat.one_shiftLeft, Nat.mod_eq_of_lt (by omega), Nat.min_eq_left (by omega)]
  · next hn =>
    have hn : 64 ≤ n.toNat := Nat.le_of_not_lt fun hlt => hn (UInt32.lt_iff_toNat_lt.2 hlt)
    have hpow : 2 ^ 64 ≤ 2 ^ n.toNat := Nat.pow_le_pow_right (by decide) hn
    rw [Option.getD_none, Nat.min_eq_right (by omega)]
    rfl

theorem toNat_times (delay factor : UInt64) :
    (times delay factor).toNat = min (delay.toNat * factor.toNat) (UInt64.size - 1) :=
  toNat_ofNat_min _

theorem toNat_min (delay bound : UInt64) :
    (min delay bound).toNat = min delay.toNat bound.toNat := by
  show (if delay ≤ bound then delay else bound).toNat = _
  split
  · next hle => rw [Nat.min_eq_left (UInt64.le_iff_toNat_le.1 hle)]
  · next hle =>
    rw [Nat.min_eq_right (Nat.le_of_not_le fun hmin => hle (UInt64.le_iff_toNat_le.2 hmin))]

end Delay

end Noticeboard
