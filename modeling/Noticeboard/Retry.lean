import Noticeboard.Validation

/-!
# Retrying failed fetches

A fetch that fails leaves a marker on its subject. The marker says when the next attempt may be
made: the delay after a failure starts at the configured minimum and doubles with each further one,
up to the configured maximum. A success removes the marker.

`Markers.sweep` goes over all markers from time to time. It drops those left alone for longer than
their time to live, and reports each subject whose delay has passed once for each failure.
-/

namespace Noticeboard

/-! ## Schedule -/

/-- Delays in seconds. -/
structure RetryConfig where
  /-- The delay after the first failure. -/
  minDelay : UInt64 := 600
  /-- The longest delay. -/
  maxDelay : UInt64 := 86400
  /-- How long a marker is kept after the last attempt. -/
  markerTtl : UInt64 := 2592000
deriving DecidableEq

namespace RetryConfig

/-- Whether `0 < minDelay ≤ maxDelay ≤ markerTtl`. -/
def isValid (c : RetryConfig) : Bool :=
  0 < c.minDelay && c.minDelay ≤ c.maxDelay && c.maxDelay ≤ c.markerTtl

/-- The delay after a number of repeated failures: the minimum doubled that many times, but no more
than the maximum. -/
def delayAfter (c : RetryConfig) (repeats : UInt32) : UInt64 :=
  let factor := (Delay.shiftLeft? 1 repeats).getD Delay.longest
  min (Delay.times c.minDelay factor) c.maxDelay

/-- That words are bounded makes no difference: the delay is what it would be for numbers of any
size. -/
theorem toNat_delayAfter (c : RetryConfig) (repeats : UInt32) : (c.delayAfter repeats).toNat =
    min (c.minDelay.toNat <<< repeats.toNat) c.maxDelay.toNat := by
  have hmax : c.maxDelay.toNat ≤ UInt64.size - 1 := Nat.le_sub_one_of_lt c.maxDelay.toNat_lt_size
  rw [delayAfter, Delay.toNat_min, Delay.toNat_times, Delay.toNat_shiftLeft?_one, Nat.min_assoc,
    Nat.min_eq_right hmax, Nat.shiftLeft_eq c.minDelay.toNat, ← Nat.one_shiftLeft]
  rcases Nat.le_total (1 <<< repeats.toNat) (UInt64.size - 1) with hfits | hlarge
  · rw [Nat.min_eq_left hfits]
  rw [Nat.min_eq_right hlarge]
  -- The factor is cut off, and this does not show: a minimum of zero stays zero, and any other passes
  -- the maximum with either factor.
  rcases Nat.eq_zero_or_pos c.minDelay.toNat with hzero | hpos
  · rw [hzero, Nat.zero_mul, Nat.zero_mul]
  · have hfactor : c.maxDelay.toNat ≤ c.minDelay.toNat * (UInt64.size - 1) :=
      Nat.le_trans hmax (Nat.le_mul_of_pos_left _ hpos)
    have hpower : c.maxDelay.toNat ≤ c.minDelay.toNat * (1 <<< repeats.toNat) :=
      Nat.le_trans hfactor (Nat.mul_le_mul_left _ hlarge)
    rw [Nat.min_eq_right hfactor, Nat.min_eq_right hpower]

/-- The factor fits a word up to the sixty-third repeat, but there its product with three does not. -/
example :
    let c : RetryConfig := { minDelay := 3, maxDelay := Delay.longest, markerTtl := Delay.longest }
    (c.delayAfter 62).toNat = 3 * 2 ^ 62 ∧ c.delayAfter 63 = Delay.longest ∧
      c.delayAfter 64 = Delay.longest := by
  decide

end RetryConfig

/-! ## Subjects -/

/-- What a fetch is for. -/
inductive Subject where
  | message (id : MessageId)
  | list (id : ListId)
deriving DecidableEq

namespace Subject

/-- Who wrote it. -/
def author : Subject → IdentityId
  | message id => id.author
  | list id => id.author

/-- The kind of subject, as counted. -/
def kind : Subject → String
  | message _ => "message"
  | list _ => "message_list"

/-- The written form. -/
def toText : Subject → String
  | message id => "message " ++ id.toText
  | list id => "message list " ++ id.toText

/-- Whether it is one of the given messages; a list never is. -/
def isMessageIn (ids : IdSet) : Subject → Bool
  | message id => ids.contains id
  | list _ => false

/-- Whether it is a list. -/
def isList : Subject → Bool
  | message _ => false
  | list _ => true

/-- The number that tells apart the subjects of one kind and author: a token or an edition. -/
def number : Subject → Nat
  | message id => id.token.bits.toNat
  | list id => id.edition.toNat

/-- Messages before lists, then by author, then by token or edition. -/
instance : Ord Subject :=
  ⟨compareLex (compareOn isList) (compareLex (compareOn author) (compareOn number))⟩

instance : Std.TransOrd Subject :=
  inferInstanceAs (Std.TransCmp
    (compareLex (compareOn isList) (compareLex (compareOn author) (compareOn number))))

instance : Std.LawfulEqOrd Subject where
  eq_of_compare {a b} h := by
    obtain ⟨hk, h⟩ := compareLex_eq_eq.1 h
    obtain ⟨ha, hn⟩ := compareLex_eq_eq.1 h
    have hk := Std.LawfulEqOrd.eq_of_compare (α := Bool) hk
    have ha := Std.LawfulEqOrd.eq_of_compare (α := IdentityId) ha
    have hn := Std.LawfulEqOrd.eq_of_compare (α := Nat) hn
    obtain ⟨a, ⟨t⟩⟩ | ⟨a, e⟩ := a <;> obtain ⟨b, ⟨u⟩⟩ | ⟨b, f⟩ := b <;>
      simp_all [isList, author, number, BitVec.toNat_inj, UInt64.toNat_inj]

end Subject

/-! ## Markers -/

/-- The failures on record for one subject. -/
structure Marker where
  reason : FetchReason
  /-- Failures after the first one. -/
  repeats : UInt32
  firstFailure : Timestamp
  lastAttempt : Timestamp
  nextRetry : Timestamp
  /-- Set when a sweep has reported the subject since its last failure. -/
  reported : Bool
deriving DecidableEq

namespace Marker

/-- The marker of a first failure. -/
def first (c : RetryConfig) (reason : FetchReason) (now : Timestamp) : Marker where
  reason
  repeats := 0
  firstFailure := now
  lastAttempt := now
  nextRetry := now.after c.minDelay
  reported := false

/-- The marker after one more failure; the count of repeats stops at its largest value. -/
def again (c : RetryConfig) (reason : FetchReason) (now : Timestamp) (m : Marker) : Marker :=
  let repeats := UInt32.ofNat (min (m.repeats.toNat + 1) (UInt32.size - 1))
  { m with
    reason, repeats
    lastAttempt := now
    nextRetry := now.after (c.delayAfter repeats)
    reported := false }

/-- Whether the next attempt may be made. -/
def isDue (m : Marker) (now : Timestamp) : Bool := m.nextRetry ≤ now

/-- Whether the last attempt is longer ago than the time to live. -/
def isStale (m : Marker) (now : Timestamp) (ttl : UInt64) : Bool := ttl < now.since m.lastAttempt

end Marker

/-- All markers. -/
abbrev Markers := Std.ExtTreeMap Subject Marker

/-- What a sweep found, each in the order of subjects. -/
structure Sweep where
  /-- Subjects that may be tried again and were not reported since their last failure. -/
  eligible : List Subject
  /-- Subjects whose markers were dropped. -/
  purged : List Subject
deriving DecidableEq

namespace Markers

/-- Records a failure. -/
def fail (ms : Markers) (c : RetryConfig) (s : Subject) (reason : FetchReason) (now : Timestamp) :
    Markers :=
  ms.alter s fun
    | none => some (.first c reason now)
    | some m => some (m.again c reason now)

/-- Whether a subject may be tried now. -/
def isRetryAllowed (ms : Markers) (s : Subject) (now : Timestamp) : Bool :=
  ms[s]?.all (·.isDue now)

/-- Forgets a subject after a success. -/
def succeed (ms : Markers) (s : Subject) : Markers := ms.erase s

/-- The markers that a sweep keeps and has to report. -/
def isEligible (m : Marker) (now : Timestamp) (ttl : UInt64) : Bool :=
  !m.isStale now ttl && m.isDue now && !m.reported

/-- Drops stale markers and reports due ones. -/
def sweep (ms : Markers) (c : RetryConfig) (now : Timestamp) : Markers × Sweep :=
  let kept := (ms.filter fun _ m => !m.isStale now c.markerTtl).map fun _ m =>
    if m.isDue now then { m with reported := true } else m
  (kept,
    { eligible := (ms.filter fun _ m => isEligible m now c.markerTtl).keys
      purged := (ms.filter fun _ m => m.isStale now c.markerTtl).keys })

/-- Forgets every subject by an author. -/
def pruneAuthor (ms : Markers) (author : IdentityId) : Markers :=
  ms.filter fun s _ => s.author != author

/-- Forgets the given messages. -/
def pruneMessages (ms : Markers) (ids : IdSet) : Markers :=
  ms.filter fun s _ => !s.isMessageIn ids

/-- Forgets all messages but those that `keep` accepts; lists are left alone. -/
def retainMessages (ms : Markers) (keep : MessageId → Bool) : Markers :=
  ms.filter fun s _ => match s with
    | .message id => keep id
    | .list _ => true

/-- The markers of a list of subjects, of which the last entry for a subject counts. -/
def ofEntries (entries : List (Subject × Marker)) : Markers := Std.ExtTreeMap.ofList entries

end Markers

end Noticeboard
