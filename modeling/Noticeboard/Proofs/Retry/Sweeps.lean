import Mathlib.Data.List.Basic
import Mathlib.Data.List.Induction
import Noticeboard.Proofs.Retry.Backoff

/-!
# Sweeps

A sweep reports a subject as soon as its date is reached, but once for each failure: whether a sweep of
a run has reported the subject since its last failure (`Markers.ReportedSinceFailure`) is what the
marker keeps in one bit (`Markers.reported_iff`), so the reports can be read off the run
(`Markers.run_reports`).

A sweep also drops markers that were left alone for too long. Their dates are reached by then, since no
delay is longer than markers are kept, so a sweep lets through and holds back what it did before
(`Markers.run_sweep_allows`).
-/

namespace Noticeboard

theorem Marker.isStale_iff {m : Marker} {now : Timestamp} {ttl : UInt64} :
    m.isStale now ttl = true ↔ m.lastAttempt.toNat + ttl.toNat < now.toNat := by
  rw [isStale, decide_eq_true_iff, UInt64.lt_iff_toNat_lt, Timestamp.toNat_since]
  omega

namespace Markers

variable {ms : Markers} {c : RetryConfig} {subject : Subject} {now : Timestamp} {ops : List Op}
  {op : Op}

/-! ## One sweep -/

theorem mem_eligible : subject ∈ (ms.sweep c now).2.eligible ↔ ∃ m, ms[subject]? = some m ∧
    m.nextRetry ≤ now ∧ now.toNat ≤ m.lastAttempt.toNat + c.markerTtl.toNat ∧
      m.reported = false := by
  have hpasses (m : Marker) : isEligible m now c.markerTtl = true ↔ m.nextRetry ≤ now ∧
      now.toNat ≤ m.lastAttempt.toNat + c.markerTtl.toNat ∧ m.reported = false := by
    rw [isEligible, Bool.and_eq_true, Bool.and_eq_true, Bool.not_eq_true', Bool.not_eq_true',
      ← Bool.not_eq_true, Marker.isStale_iff, Nat.not_lt, Marker.isDue, decide_eq_true_iff,
      and_assoc, and_left_comm]
  simp only [sweep, Std.ExtTreeMap.mem_keys, mem_iff_getElem?, Std.ExtTreeMap.getElem?_filter',
    Option.filter_eq_some_iff, hpasses]

/-- A marker that a sweep keeps is reported if it is due and was not reported yet. -/
theorem mem_eligible_of_kept {m : Marker} (hm : ms[subject]? = some m)
    (hkept : (!m.isStale now c.markerTtl) = true) :
    subject ∈ (ms.sweep c now).2.eligible ↔ m.isDue now = true ∧ m.reported = false := by
  rw [Bool.not_eq_true', ← Bool.not_eq_true, Marker.isStale_iff, Nat.not_lt] at hkept
  rw [mem_eligible, Marker.isDue, decide_eq_true_iff]
  simp [hm, hkept]

theorem mem_purged : subject ∈ (ms.sweep c now).2.purged ↔ ∃ m, ms[subject]? = some m ∧
    m.lastAttempt.toNat + c.markerTtl.toNat < now.toNat := by
  simp only [sweep, Std.ExtTreeMap.mem_keys, mem_iff_getElem?, Std.ExtTreeMap.getElem?_filter',
    Option.filter_eq_some_iff, Marker.isStale_iff]

/-- The subjects that a sweep purges are those that lose their marker. -/
theorem mem_purged_iff_dropped : subject ∈ (ms.sweep c now).2.purged ↔
    subject ∈ ms ∧ subject ∉ (ms.sweep c now).1 := by
  rw [mem_purged, Std.ExtTreeMap.mem_iff_isSome_getElem?, Std.ExtTreeMap.mem_iff_isSome_getElem?,
    getElem?_sweep]
  cases ms[subject]? with
  | none => simp
  | some m => simp [Option.filter, Marker.isStale_iff]

theorem pairwise_eligible (ms : Markers) (c : RetryConfig) (now : Timestamp) :
    (ms.sweep c now).2.eligible.Pairwise fun a b => compare a b = .lt :=
  Std.ExtTreeMap.ordered_keys

theorem pairwise_purged (ms : Markers) (c : RetryConfig) (now : Timestamp) :
    (ms.sweep c now).2.purged.Pairwise fun a b => compare a b = .lt :=
  Std.ExtTreeMap.ordered_keys

theorem not_mem_purged_of_mem_eligible (h : subject ∈ (ms.sweep c now).2.eligible) :
    subject ∉ (ms.sweep c now).2.purged := by
  intro hpurged
  obtain ⟨m, hm, -, hkept, -⟩ := mem_eligible.1 h
  obtain ⟨m', hm', hstale⟩ := mem_purged.1 hpurged
  obtain rfl := Option.some.inj (hm.symm.trans hm')
  omega

/-! ## The sweeps of a run -/

/-- Some sweep of a run reports the subject, and no fetch of it fails after that. -/
def ReportedSinceFailure (c : RetryConfig) (subject : Subject) (ops : List Op) : Prop :=
  ∃ before now after, ops = before ++ .sweep now :: after ∧
    subject ∈ ((run c before).sweep c now).2.eligible ∧
    ∀ reason time, .fail subject reason time ∉ after

theorem run_concat (c : RetryConfig) (ops : List Op) (op : Op) :
    run c (ops ++ [op]) = step c (run c ops) op := by
  rw [run, run, List.foldl_concat]

/-- One more operation counts if it is a sweep that reports the subject, and takes back what came
before if it is a failed fetch of it. -/
theorem reportedSinceFailure_concat : ReportedSinceFailure c subject (ops ++ [op]) ↔
    (∃ now, op = .sweep now ∧ subject ∈ ((run c ops).sweep c now).2.eligible) ∨
      (ReportedSinceFailure c subject ops ∧ ∀ reason time, op ≠ .fail subject reason time) := by
  constructor
  · rintro ⟨before, time, after, hsplit, hreport, hafter⟩
    rcases List.eq_nil_or_concat' after with rfl | ⟨after, last, rfl⟩
    · obtain ⟨rfl, hop⟩ := List.append_inj' hsplit rfl
      exact .inl ⟨time, List.singleton_inj.1 hop, hreport⟩
    · rw [← List.cons_append, ← List.append_assoc] at hsplit
      obtain ⟨rfl, hop⟩ := List.append_inj' hsplit rfl
      obtain rfl := List.singleton_inj.1 hop
      refine .inr ⟨⟨before, time, after, rfl, hreport, fun reason time hfail => ?_⟩,
        fun reason time hfail => ?_⟩
      · exact hafter reason time (List.mem_append_left _ hfail)
      · exact hafter reason time (List.mem_append_right _ (List.mem_singleton.2 hfail.symm))
  · rintro (⟨time, rfl, hreport⟩ | ⟨⟨before, time, after, rfl, hreport, hafter⟩, hop⟩)
    · exact ⟨ops, time, [], rfl, hreport, fun _ _ => List.not_mem_nil⟩
    · refine ⟨before, time, after ++ [op], by simp, hreport, fun reason time hfail => ?_⟩
      rcases List.mem_append.1 hfail with hfail | hfail
      · exact hafter reason time hfail
      · exact hop reason time (List.mem_singleton.1 hfail).symm

/-- The marker of a subject knows whether it was reported since its last failure. -/
theorem reported_iff (c : RetryConfig) (ops : List Op) (subject : Subject) :
    ∀ m, (run c ops)[subject]? = some m →
      (m.reported = true ↔ ReportedSinceFailure c subject ops) := by
  induction ops using List.reverseRecOn with
  | nil =>
    intro m hm
    simp [run] at hm
  | append_singleton ops op ih =>
    intro m hm
    rw [run_concat] at hm
    rw [reportedSinceFailure_concat]
    cases hconcerns : op.concerns subject with
    | false =>
      rw [getElem?_step_of_not_concerns hconcerns] at hm
      have hsweep : ∀ time, op ≠ .sweep time := by
        rintro time rfl
        cases hconcerns
      have hfail : ∀ reason time, op ≠ .fail subject reason time := by
        rintro reason time rfl
        simp [Op.concerns] at hconcerns
      simp [ih m hm, hsweep, hfail]
    | true =>
      obtain hforgets | ⟨reason, time, rfl⟩ | ⟨time, rfl⟩ := Op.cases_of_concerns hconcerns
      · rw [getElem?_step_of_forgets hforgets] at hm
        cases hm
      · have hunreported : m.reported = false := by
          rw [step, getElem?_fail_self] at hm
          cases hm
          cases (run c ops)[subject]? <;> rfl
        simp [hunreported]
      · rw [step, getElem?_sweep] at hm
        obtain ⟨m, hkept, rfl⟩ := Option.map_eq_some_iff.1 hm
        obtain ⟨hm, hfresh⟩ := Option.filter_eq_some_iff.1 hkept
        simp only [Op.sweep.injEq, exists_eq_left', mem_eligible_of_kept hm hfresh, ← ih m hm]
        cases hdue : m.isDue time <;> cases hreported : m.reported <;> simp [hreported]

/-- A sweep at any time after any operations reports the subjects whose date is reached, whose last
failure is no longer ago than markers are kept, and which no sweep has reported since then. So between
two sweeps that report a subject a fetch of it fails. The subjects whose last failure is longer ago lose
their markers, and each subject is reported at most once, in order and in one way. -/
theorem run_reports (c : RetryConfig) (ops : List Op) (now : Timestamp) :
    let ms := run c ops
    let report := (ms.sweep c now).2
    (∀ subject, subject ∈ report.eligible ↔
      (∃ m, ms[subject]? = some m ∧ m.nextRetry ≤ now ∧
        now.toNat ≤ m.lastAttempt.toNat + c.markerTtl.toNat) ∧
      ¬ ReportedSinceFailure c subject ops) ∧
    (∀ subject before time between, ops = before ++ .sweep time :: between →
      subject ∈ ((run c before).sweep c time).2.eligible → subject ∈ report.eligible →
      ∃ reason failed, .fail subject reason failed ∈ between) ∧
    (∀ subject, subject ∈ report.purged ↔ ∃ m, ms[subject]? = some m ∧
      m.lastAttempt.toNat + c.markerTtl.toNat < now.toNat) ∧
    (∀ subject, subject ∈ report.purged ↔ subject ∈ ms ∧ subject ∉ (ms.sweep c now).1) ∧
    report.eligible.Pairwise (fun a b => compare a b = .lt) ∧
    report.purged.Pairwise (fun a b => compare a b = .lt) ∧
    ∀ subject ∈ report.eligible, subject ∉ report.purged := by
  intro ms report
  have heligible (subject : Subject) : subject ∈ report.eligible ↔
      (∃ m, ms[subject]? = some m ∧ m.nextRetry ≤ now ∧
        now.toNat ≤ m.lastAttempt.toNat + c.markerTtl.toNat) ∧
      ¬ ReportedSinceFailure c subject ops := by
    rw [mem_eligible]
    constructor
    · rintro ⟨m, hm, hdue, hkept, hreported⟩
      rw [← reported_iff c ops subject m hm, hreported]
      exact ⟨⟨m, hm, hdue, hkept⟩, Bool.false_ne_true⟩
    · rintro ⟨⟨m, hm, hdue, hkept⟩, hreported⟩
      rw [← reported_iff c ops subject m hm, Bool.not_eq_true] at hreported
      exact ⟨m, hm, hdue, hkept, hreported⟩
  refine ⟨heligible, ?_, fun subject => mem_purged, fun subject => mem_purged_iff_dropped,
    pairwise_eligible ms c now, pairwise_purged ms c now,
    fun subject => not_mem_purged_of_mem_eligible⟩
  intro subject before time between hops hearlier hnow
  refine Classical.byContradiction fun hnone => ((heligible subject).1 hnow).2 ?_
  exact ⟨before, time, between, hops, hearlier,
    fun reason failed hfail => hnone ⟨reason, failed, hfail⟩⟩

/-- A message and a list fail and are reported on the day that they are due. The message fails again and
is reported again, in the end. The list is not reported twice, and purged after a month. -/
theorem reports_after_failures :
    let message : Subject := .message ⟨⟨.ofNat 256 7⟩, ⟨.ofNat 128 1⟩⟩
    let list : Subject := .list ⟨⟨.ofNat 256 7⟩, 0⟩
    let before : List Op := [.fail list .notFound 1000, .fail message .transient 1000]
    let between : List Op := [.sweep 2000, .fail message .transient 2592500]
    let ops : List Op := before ++ .sweep 1600 :: between
    let now : Timestamp := 2600000
    ((run {} before).sweep {} 1600).2 = { eligible := [message, list], purged := [] } ∧
      ((run {} ops).sweep {} now).2 = { eligible := [message], purged := [list] } ∧
      ((∃ reason failed, .fail message reason failed ∈ between) ∧
        ¬ ReportedSinceFailure {} message ops) ∧
      list ∉ ((run {} ops).sweep {} now).1 := by
  intro message list before between ops now
  have hearlier : ((run {} before).sweep {} 1600).2 =
      { eligible := [message, list], purged := [] } := by decide +kernel
  have hreport : ((run {} ops).sweep {} now).2 =
      { eligible := [message], purged := [list] } := by decide +kernel
  obtain ⟨heligible, hbetween, -, hpurged, -⟩ := run_reports {} ops now
  have hmessage : message ∈ ((run {} ops).sweep {} now).2.eligible := by simp [hreport]
  exact ⟨hearlier, hreport,
    ⟨hbetween message before 1600 between rfl (by simp [hearlier]) hmessage,
      ((heligible message).1 hmessage).2⟩,
    ((hpurged list).1 (by simp [hreport])).2⟩

/-! ## Purging and backoff -/

/-- A sweep changes nothing at a time that no marker which it drops holds back. -/
theorem isRetryAllowed_sweep_eq {later : Timestamp}
    (h : ∀ m, ms[subject]? = some m → m.isStale now c.markerTtl = true → m.nextRetry ≤ later) :
    (ms.sweep c now).1.isRetryAllowed subject later = ms.isRetryAllowed subject later := by
  rw [isRetryAllowed, isRetryAllowed, getElem?_sweep]
  cases hm : ms[subject]? with
  | none => rfl
  | some m =>
    have hdate : (if m.isDue now then { m with reported := true } else m).isDue later =
        m.isDue later := by
      split <;> rfl
    rw [Option.filter_some, Option.all_some]
    cases hstale : m.isStale now c.markerTtl with
    | true => exact (decide_eq_true (h m hm hstale)).symm
    | false => exact hdate

/-- No subject is held back for longer than the longest delay. -/
theorem nextRetry_le {m : Marker} {fs : List Failure} (h : m.Records c fs) :
    m.nextRetry.toNat ≤ m.lastAttempt.toNat + c.maxDelay.toNat := by
  have hnext := h.nextRetry
  omega

/-- A marker that a run leaves is due before it is stale. -/
theorem nextRetry_le_of_stale (hc : c.isValid = true) {m : Marker}
    (hm : (run c ops)[subject]? = some m) (hstale : m.isStale now c.markerTtl = true) :
    m.nextRetry ≤ now := by
  have htells := tells_run hc subject ops
  rw [hm] at htells
  have hnext := nextRetry_le htells
  have hdelay := RetryConfig.maxDelay_le_markerTtl hc
  rw [Marker.isStale_iff] at hstale
  rw [UInt64.le_iff_toNat_le]
  omega

/-- With a valid configuration, a sweep at any time after any operations changes for no subject whether
it may be tried, then or later, and it leaves the markers that it keeps as they were but for the note
that their subject was reported. -/
theorem run_sweep_allows (hc : c.isValid = true) (ops : List Op) (now : Timestamp) :
    let ms := run c ops
    let swept := (ms.sweep c now).1
    (∀ subject later, now ≤ later →
      swept.isRetryAllowed subject later = ms.isRetryAllowed subject later) ∧
    ∀ (subject : Subject) (m' : Marker), swept[subject]? = some m' →
      ∃ m, ms[subject]? = some m ∧ m' = { m with reported := m'.reported } := by
  intro ms swept
  refine ⟨fun subject later hlater => isRetryAllowed_sweep_eq fun m hm hstale => ?_,
    fun subject m' hm' => ?_⟩
  · exact UInt64.le_trans (nextRetry_le_of_stale hc hm hstale) hlater
  · rw [getElem?_sweep] at hm'
    obtain ⟨m, hkept, rfl⟩ := Option.map_eq_some_iff.1 hm'
    refine ⟨m, (Option.filter_eq_some_iff.1 hkept).1, ?_⟩
    split <;> rfl

/-- Shortly before the last moment there is, a list that failed long ago is purged, and may be tried as
before. A message that failed just now is held back as before, until the last moment. -/
theorem purged_when_due :
    let list : Subject := .list ⟨⟨.ofNat 256 7⟩, 0⟩
    let message : Subject := .message ⟨⟨.ofNat 256 7⟩, ⟨.ofNat 128 1⟩⟩
    let c : RetryConfig := { minDelay := 10, maxDelay := 10, markerTtl := 10 }
    let ops : List Op := [.fail list .notFound 5, .fail message .transient (.last - 5)]
    let now : Timestamp := .last - 1
    let ms := run c ops
    let swept := (ms.sweep c now).1
    c.isValid = true ∧ list ∈ ms ∧ list ∉ swept ∧
      (swept.isRetryAllowed list now = true ∧ ms.isRetryAllowed list now = true) ∧
      (swept.isRetryAllowed message now = false ∧ ms.isRetryAllowed message now = false) ∧
      (swept.isRetryAllowed message .last = true ∧ ms.isRetryAllowed message .last = true) ∧
      ∀ m', swept[message]? = some m' →
        ∃ m, ms[message]? = some m ∧ m' = { m with reported := m'.reported } := by
  intro list message c ops now ms swept
  have hvalid : c.isValid = true := by decide
  obtain ⟨hallowed, hkept⟩ := run_sweep_allows hvalid ops now
  have hlist : ms.isRetryAllowed list now = true := by decide +kernel
  have hheld : ms.isRetryAllowed message now = false := by decide +kernel
  have hlast : ms.isRetryAllowed message .last = true := by decide +kernel
  exact ⟨hvalid, by decide +kernel, by decide +kernel,
    ⟨(hallowed list now (UInt64.le_refl now)).trans hlist, hlist⟩,
    ⟨(hallowed message now (UInt64.le_refl now)).trans hheld, hheld⟩,
    ⟨(hallowed message .last (by decide)).trans hlast, hlast⟩, hkept message⟩

end Markers

end Noticeboard
