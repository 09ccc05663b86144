import Noticeboard.Proofs.Retry

/-!
# The backoff of a subject

After any operations the marker of a subject can be read off its failures on record, those since its
marker was last dropped (`Markers.failures`). The marker says how many repeats there were, when the
first and the last failure were, and when to try again: the delay doubles with each repeat, cut off at
the maximum (`Marker.Records`, `Markers.run_backoff`). Times may go backwards.
-/

namespace Noticeboard

/-- One failed fetch. -/
structure Failure where
  reason : FetchReason
  time : Timestamp
deriving DecidableEq

/-- A marker tells of failures, listed in the order in which they happened: the time of the first, the
reason and time of the last, how many came after the first, and when to try again. -/
structure Marker.Records (c : RetryConfig) (m : Marker) (fs : List Failure) : Prop where
  first : fs.head?.map (·.time) = some m.firstFailure
  last : fs.getLast? = some ⟨m.reason, m.lastAttempt⟩
  repeats : m.repeats.toNat = min (fs.length - 1) (2 ^ 32 - 1)
  nextRetry : m.nextRetry.toNat =
    min (m.lastAttempt.toNat + min (c.minDelay.toNat * 2 ^ (fs.length - 1)) c.maxDelay.toNat)
      (2 ^ 64 - 1)

namespace Marker

variable {c : RetryConfig} {m : Marker} {fs : List Failure}

theorem records_first (hc : c.isValid = true) (reason : FetchReason) (now : Timestamp) :
    (first c reason now).Records c [⟨reason, now⟩] := by
  refine ⟨rfl, rfl, rfl, ?_⟩
  have hle := RetryConfig.minDelay_le_maxDelay hc
  show (now.after c.minDelay).toNat =
    min (now.toNat + min (c.minDelay.toNat * 2 ^ 0) c.maxDelay.toNat) (UInt64.size - 1)
  rw [Timestamp.toNat_after, Nat.pow_zero, Nat.mul_one, Nat.min_eq_left hle]

theorem Records.ne_nil (h : m.Records c fs) : fs ≠ [] := by
  rintro rfl
  cases h.last

theorem Records.again (hc : c.isValid = true) (h : m.Records c fs) (reason : FetchReason)
    (now : Timestamp) : (m.again c reason now).Records c (fs ++ [⟨reason, now⟩]) := by
  have hlength : (fs ++ [(⟨reason, now⟩ : Failure)]).length - 1 = fs.length := by
    rw [List.length_append]
    rfl
  have hpos := List.length_pos_iff.2 h.ne_nil
  have hrepeats : (m.again c reason now).repeats.toNat = min fs.length (UInt32.size - 1) := by
    show (UInt32.ofNat (min (m.repeats.toNat + 1) (UInt32.size - 1))).toNat = _
    have hcount := h.repeats
    rw [UInt32.toNat_ofNat', UInt32.size]
    omega
  refine ⟨?_, List.getLast?_concat, ?_, ?_⟩
  · obtain ⟨f, rest, rfl⟩ := List.exists_cons_of_ne_nil h.ne_nil
    exact h.first
  · rw [hlength]
    exact hrepeats
  · show (now.after (c.delayAfter (m.again c reason now).repeats)).toNat = _
    rw [Timestamp.toNat_after, RetryConfig.toNat_delayAfter_counted hc hrepeats, hlength]
    rfl

/-- That a subject was reported changes nothing of what its marker tells. -/
theorem Records.report (h : m.Records c fs) : { m with reported := true }.Records c fs :=
  ⟨h.first, h.last, h.repeats, h.nextRetry⟩

end Marker

namespace Markers

variable {c : RetryConfig} {subject : Subject} {fs : List Failure} {ms : Markers} {op : Op}

/-! ## Failures on record -/

/-- The last of the failures is longer ago than markers are kept. -/
def isOutdated (c : RetryConfig) (fs : List Failure) (now : Timestamp) : Bool :=
  fs.getLast?.any fun f => f.time.toNat + c.markerTtl.toNat < now.toNat

/-- The failures of a subject on record after one more operation: a failed fetch of it is added, and
all are dropped by a fetch or a pruning of it, and by a sweep long after the last. -/
def Op.record (c : RetryConfig) (subject : Subject) (fs : List Failure) : Op → List Failure
  | .fail other reason now => if other = subject then fs ++ [⟨reason, now⟩] else fs
  | .sweep now => if isOutdated c fs now then [] else fs
  | op => if op.forgets subject then [] else fs

/-- The failures of a subject since its marker was last dropped. -/
def failures (c : RetryConfig) (subject : Subject) (ops : List Op) : List Failure :=
  ops.foldl (Op.record c subject) []

/-! ## Markers and failures -/

/-- What a marker, if there is one, tells of the failures on record. -/
def Tells (c : RetryConfig) (fs : List Failure) : Option Marker → Prop
  | none => fs = []
  | some m => m.Records c fs

theorem Tells.fail (hc : c.isValid = true) {marker : Option Marker} (h : Tells c fs marker)
    (reason : FetchReason) (now : Timestamp) : Tells c (fs ++ [⟨reason, now⟩])
      (some (marker.elim (.first c reason now) (·.again c reason now))) := by
  cases marker with
  | none =>
    obtain rfl : fs = [] := h
    exact Marker.records_first hc reason now
  | some m => exact Marker.Records.again hc h reason now

theorem isOutdated_of_records {m : Marker} (h : m.Records c fs)
    (now : Timestamp) : isOutdated c fs now = m.isStale now c.markerTtl := by
  rw [Markers.isOutdated, h.last, Option.any_some, Marker.isStale, decide_eq_decide,
    UInt64.lt_iff_toNat_lt, Timestamp.toNat_since]
  show m.lastAttempt.toNat + c.markerTtl.toNat < now.toNat ↔ _
  omega

theorem Tells.sweep {marker : Option Marker} (h : Tells c fs marker) (now : Timestamp) :
    Tells c (if isOutdated c fs now then [] else fs)
      ((marker.filter fun m => !m.isStale now c.markerTtl).map fun m =>
        if m.isDue now then { m with reported := true } else m) := by
  cases marker with
  | none =>
    obtain rfl : fs = [] := h
    rfl
  | some m =>
    rw [isOutdated_of_records h, Option.filter_some]
    cases m.isStale now c.markerTtl with
    | true => rfl
    | false =>
      show Marker.Records c (if m.isDue now then _ else m) fs
      split
      · exact Marker.Records.report h
      · exact h

theorem Op.record_of_forgets (h : op.forgets subject = true) : op.record c subject fs = [] := by
  cases op with
  | fail | sweep => cases h
  | succeed | pruneAuthor | pruneMessages | retainMessages => exact if_pos h

theorem Op.record_of_not_concerns (h : op.concerns subject = false) :
    op.record c subject fs = fs := by
  cases op with
  | fail => exact if_neg (of_decide_eq_false h)
  | sweep => cases h
  | succeed | pruneAuthor | pruneMessages | retainMessages =>
    exact if_neg (Bool.eq_false_iff.1 h)

theorem Tells.step (hc : c.isValid = true) (h : Tells c fs ms[subject]?) (op : Op) :
    Tells c (op.record c subject fs) (step c ms op)[subject]? := by
  cases hconcerns : op.concerns subject with
  | false =>
    rw [getElem?_step_of_not_concerns hconcerns, Op.record_of_not_concerns hconcerns]
    exact h
  | true =>
    obtain hforgets | ⟨reason, now, rfl⟩ | ⟨now, rfl⟩ := Op.cases_of_concerns hconcerns
    · rw [getElem?_step_of_forgets hforgets, Op.record_of_forgets hforgets]
      rfl
    · rw [Markers.step, getElem?_fail_self, Op.record, if_pos rfl]
      exact h.fail hc reason now
    · rw [Markers.step, getElem?_sweep, Op.record]
      exact h.sweep now

theorem tells_run (hc : c.isValid = true) (subject : Subject) (ops : List Op) :
    Tells c (failures c subject ops) (run c ops)[subject]? := by
  suffices hfrom : ∀ (fs : List Failure) (ms : Markers), Tells c fs ms[subject]? →
      Tells c (ops.foldl (Op.record c subject) fs) (ops.foldl (Markers.step c) ms)[subject]? from
    hfrom [] ∅ rfl
  induction ops with
  | nil => exact fun _ _ h => h
  | cons op ops ih => exact fun fs ms h => ih _ _ (h.step hc op)

/-- With a valid configuration, after any operations at any times: a subject has a marker just if there
are failures of it on record, the marker tells of exactly these, operations that do not concern the
subject play no part in it, and the subject may be tried just if it has no marker or its date is
reached. -/
theorem run_backoff (hc : c.isValid = true) (ops : List Op) (subject : Subject) :
    let ms := run c ops
    let fs := failures c subject ops
    (subject ∈ ms ↔ fs ≠ []) ∧
    (∀ m, ms[subject]? = some m → m.Records c fs) ∧
    (run c (ops.filter (·.concerns subject)))[subject]? = ms[subject]? ∧
    ∀ now, ms.isRetryAllowed subject now = true ↔
      subject ∉ ms ∨ ∃ m, ms[subject]? = some m ∧ m.nextRetry ≤ now := by
  intro ms fs
  have htells : Tells c fs ms[subject]? := tells_run hc subject ops
  have hmem : subject ∈ ms ↔ ∃ m, ms[subject]? = some m := mem_iff_getElem?
  refine ⟨?_, fun m hm => ?_, getElem?_run_filter_concerns c ops subject, fun now => ?_⟩
  · cases hmarker : ms[subject]? with
    | none =>
      rw [hmarker] at htells
      have hnil : fs = [] := htells
      simp [hmem, hmarker, hnil]
    | some m =>
      rw [hmarker] at htells
      simp [hmem, hmarker, Marker.Records.ne_nil htells]
  · rwa [hm] at htells
  · rw [isRetryAllowed_iff, hmem]
    cases ms[subject]? <;> simp

/-- A list fails, is purged much later, and fails three more times, the last time on an earlier date.
In between another list fails and is fetched. -/
theorem thrice_failed_backs_off :
    let list : Subject := .list ⟨⟨.ofNat 256 7⟩, 0⟩
    let other : Subject := .list ⟨⟨.ofNat 256 7⟩, 1⟩
    let ops : List Op := [.fail list .transient 1000, .sweep 5000000,
      .fail list .notFound 5000000, .fail other .notFound 5000000, .fail list .notFound 5000600,
      .sweep 5000700, .succeed other, .fail list .transient 2000]
    RetryConfig.isValid {} = true ∧
      failures {} list ops =
        [⟨.notFound, 5000000⟩, ⟨.notFound, 5000600⟩, ⟨.transient, 2000⟩] ∧
      list ∈ run {} ops ∧ other ∉ run {} ops ∧
      ∀ m, (run {} ops)[list]? = some m → m.repeats.toNat = 2 ∧ m.nextRetry.toNat = 4400 := by
  intro list other ops
  have hvalid : RetryConfig.isValid {} = true := by decide
  have hfailures : failures {} list ops =
      [⟨.notFound, 5000000⟩, ⟨.notFound, 5000600⟩, ⟨.transient, 2000⟩] := by decide +kernel
  have hnone : failures {} other ops = [] := by decide +kernel
  obtain ⟨hmem, hrecords, -⟩ := run_backoff hvalid ops list
  refine ⟨hvalid, hfailures, hmem.2 (by simp [hfailures]),
    fun h => (run_backoff hvalid ops other).1.1 h hnone, fun m hm => ?_⟩
  have hm := hrecords m hm
  rw [hfailures] at hm
  have hlast : m.lastAttempt = 2000 := (Failure.mk.inj (Option.some.inj hm.last)).2.symm
  refine ⟨hm.repeats, ?_⟩
  rw [hm.nextRetry, hlast]
  rfl

end Markers

end Noticeboard
