import Mathlib.Algebra.Group.Nat.Defs
import Noticeboard.Proofs.Collections
import Noticeboard.Retry

/-!
# The marker of a subject

The delay after so many repeats is the doubled minimum, cut off at the maximum, without any bound on
the repeats (`RetryConfig.toNat_delayAfter_counted`). `Markers.Op` has what can happen to markers. What
an operation does to the marker of a subject depends on this marker alone
(`Markers.getElem?_step_congr`), and an operation that does not concern the subject leaves it
(`Markers.getElem?_step_of_not_concerns`).
-/

namespace Noticeboard

/-! ## Delays -/

theorem Timestamp.lt_after {t : Timestamp} {delay : UInt64} (ht : t < .last)
    (hdelay : 0 < delay.toNat) : t < t.after delay := by
  rw [UInt64.lt_iff_toNat_lt] at ht ⊢
  rw [toNat_after]
  have hlast : last.toNat = UInt64.size - 1 := rfl
  omega

namespace RetryConfig

variable {c : RetryConfig}

theorem minDelay_pos (h : c.isValid = true) : 0 < c.minDelay.toNat := by
  simp only [isValid, Bool.and_eq_true, decide_eq_true_eq] at h
  exact UInt64.lt_iff_toNat_lt.1 h.1.1

theorem minDelay_le_maxDelay (h : c.isValid = true) : c.minDelay.toNat ≤ c.maxDelay.toNat := by
  simp only [isValid, Bool.and_eq_true, decide_eq_true_eq] at h
  exact UInt64.le_iff_toNat_le.1 h.1.2

theorem maxDelay_le_markerTtl (h : c.isValid = true) : c.maxDelay.toNat ≤ c.markerTtl.toNat := by
  simp only [isValid, Bool.and_eq_true, decide_eq_true_eq] at h
  exact UInt64.le_iff_toNat_le.1 h.2

/-- Once there were sixty-four doublings, further ones make no difference below a bound of one word. -/
theorem min_doubled {delay bound last : Nat} (hdelay : 0 < delay) (hbound : bound < 2 ^ 64)
    (hlast : 64 ≤ last) (n : Nat) :
    min (delay * 2 ^ min n last) bound = min (delay * 2 ^ n) bound := by
  rcases Nat.le_total n last with hn | hn
  · rw [Nat.min_eq_left hn]
  · have hlarge {k : Nat} (hk : 64 ≤ k) : bound ≤ delay * 2 ^ k :=
      calc
        bound ≤ 2 ^ 64 := Nat.le_of_lt hbound
        _ ≤ 2 ^ k := Nat.pow_le_pow_right (by decide) hk
        _ ≤ delay * 2 ^ k := Nat.le_mul_of_pos_left _ hdelay
    rw [Nat.min_eq_right hn, Nat.min_eq_right (hlarge hlast),
      Nat.min_eq_right (hlarge (Nat.le_trans hlast hn))]

/-- The delay after `n` repeats, though the count of repeats stops at its largest value. -/
theorem toNat_delayAfter_counted (h : c.isValid = true) {repeats : UInt32} {n : Nat}
    (hrepeats : repeats.toNat = min n (UInt32.size - 1)) :
    (c.delayAfter repeats).toNat = min (c.minDelay.toNat * 2 ^ n) c.maxDelay.toNat := by
  rw [toNat_delayAfter, Nat.shiftLeft_eq, hrepeats]
  exact min_doubled (minDelay_pos h) c.maxDelay.toNat_lt (by decide) n

theorem delayAfter_pos (h : c.isValid = true) (repeats : UInt32) :
    0 < (c.delayAfter repeats).toNat := by
  have hmin := minDelay_pos h
  have hle := minDelay_le_maxDelay h
  rw [toNat_delayAfter, Nat.shiftLeft_eq]
  exact Nat.lt_min.2 ⟨Nat.mul_pos hmin (Nat.two_pow_pos _), Nat.lt_of_lt_of_le hmin hle⟩

end RetryConfig

namespace Markers

variable {ms : Markers} {c : RetryConfig} {subject other : Subject} {now : Timestamp}

/-! ## After a failure -/

theorem mem_fail {reason : FetchReason} :
    subject ∈ ms.fail c other reason now ↔ subject = other ∨ subject ∈ ms := by
  rw [fail, Std.ExtTreeMap.mem_alter]
  by_cases hsubject : other = subject
  · subst hsubject
    simp only [Std.ReflCmp.compare_self, if_true, true_or, iff_true]
    cases ms[other]? <;> rfl
  · simp [hsubject, Ne.symm hsubject]

theorem getElem?_fail_self {reason : FetchReason} : (ms.fail c subject reason now)[subject]? =
    some (ms[subject]?.elim (.first c reason now) (·.again c reason now)) := by
  rw [fail, Std.ExtTreeMap.getElem?_alter_self]
  cases ms[subject]? <;> rfl

theorem getElem?_fail_of_ne {reason : FetchReason} (h : subject ≠ other) :
    (ms.fail c other reason now)[subject]? = ms[subject]? := by
  rw [fail, Std.ExtTreeMap.getElem?_alter, if_neg]
  rw [Std.LawfulEqOrd.compare_eq_iff_eq]
  exact Ne.symm h

/-! ## After a success -/

theorem getElem?_succeed : (ms.succeed other)[subject]? =
    if other = subject then none else ms[subject]? := by
  rw [succeed, Std.ExtTreeMap.getElem?_erase]
  simp only [Std.LawfulEqOrd.compare_eq_iff_eq]

/-! ## After a sweep -/

theorem mem_of_mem_sweep (h : subject ∈ (ms.sweep c now).1) : subject ∈ ms :=
  Std.ExtTreeMap.mem_of_mem_filter (Std.ExtTreeMap.mem_map.1 h)

theorem getElem?_sweep (ms : Markers) (c : RetryConfig) (now : Timestamp) (subject : Subject) :
    (ms.sweep c now).1[subject]? = (ms[subject]?.filter fun m => !m.isStale now c.markerTtl).map
      fun m => if m.isDue now then { m with reported := true } else m := by
  rw [sweep, Std.ExtTreeMap.getElem?_map, Std.ExtTreeMap.getElem?_filter']

/-! ## When to try again -/

/-- A subject may be tried if it has no marker with a later date. -/
theorem isRetryAllowed_iff : ms.isRetryAllowed subject now = true ↔
    ∀ marker, ms[subject]? = some marker → marker.nextRetry ≤ now := by
  rw [isRetryAllowed]
  cases ms[subject]? <;> simp [Marker.isDue]

/-- A sweep holds nothing back. -/
theorem isRetryAllowed_sweep (h : ms.isRetryAllowed subject now = true) :
    (ms.sweep c now).1.isRetryAllowed subject now = true := by
  rw [isRetryAllowed_iff] at h ⊢
  intro m' hm'
  rw [getElem?_sweep] at hm'
  obtain ⟨m, hm, rfl⟩ := Option.map_eq_some_iff.1 hm'
  have hm := h m (Option.filter_eq_some_iff.1 hm).1
  split
  · exact hm
  · exact hm

theorem isRetryAllowed_succeed (h : ms.isRetryAllowed subject now = true) :
    (ms.succeed other).isRetryAllowed subject now = true := by
  rw [isRetryAllowed_iff] at h ⊢
  intro m hm
  rw [getElem?_succeed] at hm
  split at hm
  · cases hm
  · exact h m hm

/-! ## Operations -/

/-- What can happen to markers. -/
inductive Op where
  | fail (subject : Subject) (reason : FetchReason) (now : Timestamp)
  | succeed (subject : Subject)
  | sweep (now : Timestamp)
  | pruneAuthor (author : IdentityId)
  | pruneMessages (ids : IdSet)
  | retainMessages (keep : MessageId → Bool)

/-- The markers after an operation. -/
def step (c : RetryConfig) (ms : Markers) : Op → Markers
  | .fail subject reason now => ms.fail c subject reason now
  | .succeed subject => ms.succeed subject
  | .sweep now => (ms.sweep c now).1
  | .pruneAuthor author => ms.pruneAuthor author
  | .pruneMessages ids => ms.pruneMessages ids
  | .retainMessages keep => ms.retainMessages keep

/-- The markers after several operations, none at the start. -/
def run (c : RetryConfig) (ops : List Op) : Markers := ops.foldl (step c) ∅

/-- An operation drops the marker of a subject, whatever it says: the subject was fetched, or a pruning
meets it. -/
def Op.forgets (subject : Subject) : Op → Bool
  | .fail .. => false
  | .succeed other => other = subject
  | .sweep _ => false
  | .pruneAuthor author => subject.author == author
  | .pruneMessages ids => subject.isMessageIn ids
  | .retainMessages keep => match subject with
    | .message id => !keep id
    | .list _ => false

/-- An operation bears on a subject: a failed fetch of it, a sweep, or what drops its marker. -/
def Op.concerns (subject : Subject) : Op → Bool
  | .fail other .. => other = subject
  | .sweep _ => true
  | op => op.forgets subject

variable {op : Op}

theorem Op.cases_of_concerns (h : op.concerns subject = true) : op.forgets subject = true ∨
    (∃ reason now, op = .fail subject reason now) ∨ ∃ now, op = .sweep now := by
  cases op with
  | fail other reason now =>
    obtain rfl : other = subject := of_decide_eq_true h
    exact .inr (.inl ⟨reason, now, rfl⟩)
  | sweep now => exact .inr (.inr ⟨now, rfl⟩)
  | succeed | pruneAuthor | pruneMessages | retainMessages => exact .inl h

theorem getElem?_step_of_forgets (h : op.forgets subject = true) :
    (step c ms op)[subject]? = none := by
  cases op with
  | fail | sweep => cases h
  | succeed other => rw [step, getElem?_succeed, if_pos (of_decide_eq_true h)]
  | pruneAuthor author =>
    rw [step, pruneAuthor, getElem?_filter_key, if_neg]
    simpa [Op.forgets] using h
  | pruneMessages ids =>
    rw [step, pruneMessages, getElem?_filter_key, if_neg]
    simpa [Op.forgets] using h
  | retainMessages keep =>
    rw [step, retainMessages, getElem?_filter_key, if_neg]
    cases subject with
    | message id => simpa [Op.forgets] using h
    | list id => cases h

theorem getElem?_step_of_not_concerns (h : op.concerns subject = false) :
    (step c ms op)[subject]? = ms[subject]? := by
  cases op with
  | fail other reason now => exact getElem?_fail_of_ne (Ne.symm (of_decide_eq_false h))
  | succeed other => rw [step, getElem?_succeed, if_neg (of_decide_eq_false h)]
  | sweep => cases h
  | pruneAuthor author =>
    rw [step, pruneAuthor, getElem?_filter_key, if_pos]
    simpa [Op.concerns, Op.forgets] using h
  | pruneMessages ids =>
    rw [step, pruneMessages, getElem?_filter_key, if_pos]
    simpa [Op.concerns, Op.forgets] using h
  | retainMessages keep =>
    rw [step, retainMessages, getElem?_filter_key, if_pos]
    cases subject with
    | message id => simpa [Op.concerns, Op.forgets] using h
    | list id => rfl

/-- The marker of a subject after an operation depends on no other marker. -/
theorem getElem?_step_congr {ms' : Markers} (h : ms[subject]? = ms'[subject]?) :
    (step c ms op)[subject]? = (step c ms' op)[subject]? := by
  cases hconcerns : op.concerns subject with
  | false =>
    rw [getElem?_step_of_not_concerns hconcerns, getElem?_step_of_not_concerns hconcerns, h]
  | true =>
    obtain hforgets | ⟨reason, now, rfl⟩ | ⟨now, rfl⟩ := Op.cases_of_concerns hconcerns
    · rw [getElem?_step_of_forgets hforgets, getElem?_step_of_forgets hforgets]
    · rw [step, step, getElem?_fail_self, getElem?_fail_self, h]
    · rw [step, step, getElem?_sweep, getElem?_sweep, h]

/-- Operations that do not concern a subject leave its marker. -/
theorem getElem?_run_filter_concerns (c : RetryConfig) (ops : List Op) (subject : Subject) :
    (run c (ops.filter (·.concerns subject)))[subject]? = (run c ops)[subject]? := by
  suffices hfrom : ∀ kept all : Markers, kept[subject]? = all[subject]? →
      ((ops.filter (·.concerns subject)).foldl (step c) kept)[subject]? =
        (ops.foldl (step c) all)[subject]? from hfrom ∅ ∅ rfl
  intro kept all h
  induction ops generalizing kept all with
  | nil => exact h
  | cons op ops ih =>
    cases hconcerns : op.concerns subject with
    | true =>
      rw [List.filter_cons_of_pos hconcerns]
      exact ih _ _ (getElem?_step_congr h)
    | false =>
      rw [List.filter_cons_of_neg (by rw [hconcerns]; exact Bool.false_ne_true)]
      exact ih _ _ (h.trans (getElem?_step_of_not_concerns hconcerns).symm)

end Markers

end Noticeboard
