import Noticeboard.ListIndex
import Noticeboard.Proofs.Collections
import Noticeboard.Proofs.Sorting
import Mathlib.Tactic.Common

/-!
# Sound indexes

The parts of an index of lists fit together (`ListIndex.Sound`): a list is kept under its own name
and announces messages of its own author, a message is on record for the lists that announce it, a
reference is flagged if its message counts as downloaded, and no message is on record without a list.
Every operation keeps this.

A list that is accepted makes wanted those messages it names that neither count as downloaded nor are
on record, each once and in the order of their first mentions (`newlyWanted_eq`).

A message is wanted if some list refers to it as not downloaded (`mem_toFetch`), so none that is
downloaded is wanted (`Sound.not_wants`).
-/

namespace Noticeboard

theorem MessageList.announces_iff {l : MessageList} {x : MessageId} :
    l.announces x = true ↔ ∃ r ∈ l.references, r.message = x := by
  simp [announces]

namespace ListIndex

variable {ix ix' : ListIndex} {id k : ListId} {x y : MessageId} {l : MessageList}
  {r : Announcement} {references : List Announcement} {a : IdMap (Std.ExtTreeSet ListId)}
  {f : Option (Std.ExtTreeSet ListId) → Option (Std.ExtTreeSet ListId)} {seen : IdSet}

/-! ## The record of announcements -/

/-- A list is on record as announcing a message. -/
def OnRecord (a : IdMap (Std.ExtTreeSet ListId)) (x : MessageId) (k : ListId) : Prop :=
  ∃ ids, a[x]? = some ids ∧ k ∈ ids

theorem mem_announcing : k ∈ ix.announcing x ↔ OnRecord ix.announced x k := by
  rw [announcing, OnRecord]
  cases ix.announced[x]? <;> simp

theorem onRecord_announce : OnRecord (announce a id references) x k ↔
    OnRecord a x k ∨ (k = id ∧ ∃ r ∈ references, r.message = x) := by
  rw [announce]
  induction references generalizing a with
  | nil => simp
  | cons r rest ih =>
    have hstep : OnRecord (a.alter r.message fun lists => some ((lists.getD ∅).insert id)) x k ↔
        OnRecord a x k ∨ (k = id ∧ r.message = x) := by
      simp only [OnRecord, Std.ExtTreeMap.getElem?_alter, Std.LawfulEqOrd.compare_eq_iff_eq]
      by_cases hr : r.message = x
      · subst hr
        cases a[r.message]? <;> simp [or_comm, @eq_comm _ id k]
      · simp [hr]
    rw [List.foldl_cons, ih, hstep]
    simp only [List.mem_cons, exists_eq_or_imp]
    tauto

theorem mem_announce :
    x ∈ announce a id references ↔ x ∈ a ∨ ∃ r ∈ references, r.message = x := by
  rw [announce]
  induction references generalizing a with
  | nil => simp
  | cons r rest ih =>
    have hstep : x ∈ (a.alter r.message fun lists => some ((lists.getD ∅).insert id)) ↔
        x ∈ a ∨ r.message = x := by
      simp only [Std.ExtTreeMap.mem_alter, Std.LawfulEqOrd.compare_eq_iff_eq]
      by_cases hr : r.message = x <;> simp [hr]
    rw [List.foldl_cons, ih, hstep]
    simp only [List.mem_cons, exists_eq_or_imp, or_assoc]

theorem onRecord_retract : OnRecord (retract a id references) x k ↔
    OnRecord a x k ∧ ¬ (k = id ∧ ∃ r ∈ references, r.message = x) := by
  rw [retract]
  induction references generalizing a with
  | nil => simp
  | cons r rest ih =>
    have hstep : OnRecord (a.alter r.message fun lists => lists.bind fun lists =>
          if (lists.erase id).isEmpty then none else some (lists.erase id)) x k ↔
        OnRecord a x k ∧ ¬ (k = id ∧ r.message = x) := by
      simp only [OnRecord, Std.ExtTreeMap.getElem?_alter, Std.LawfulEqOrd.compare_eq_iff_eq]
      by_cases hr : r.message = x
      · subst hr
        cases ha : a[r.message]? with
        | none => simp
        | some ids =>
          simp only [if_true, Option.bind_some]
          split
          · next he =>
            have hgone : k ∉ ids.erase id := by simp [Std.ExtTreeSet.isEmpty_iff.1 he]
            grind
          · grind
      · simp [hr]
    rw [List.foldl_cons, ih, hstep]
    simp only [List.mem_cons, exists_eq_or_imp]
    rw [and_assoc, ← not_or, ← and_or_left]

/-- No message is on record without a list that announces it. -/
def NoneIdle (a : IdMap (Std.ExtTreeSet ListId)) : Prop :=
  ∀ (x : MessageId) (ids : Std.ExtTreeSet ListId), a[x]? = some ids → ∃ k, k ∈ ids

theorem noneIdle_empty : NoneIdle empty.announced := by simp [NoneIdle, empty]

theorem NoneIdle.alter (h : NoneIdle a) (x : MessageId)
    (hf : ∀ ids, f a[x]? = some ids → ∃ k, k ∈ ids) : NoneIdle (a.alter x f) := by
  intro y ids hids
  rw [Std.ExtTreeMap.getElem?_alter] at hids
  split at hids
  · exact hf ids hids
  · exact h y ids hids

theorem NoneIdle.announce (h : NoneIdle a) (id : ListId) (references : List Announcement) :
    NoneIdle (announce a id references) := by
  rw [ListIndex.announce]
  induction references generalizing a with
  | nil => exact h
  | cons r rest ih =>
    refine ih (h.alter r.message fun ids hids => ?_)
    cases hids
    exact ⟨id, Std.ExtTreeSet.mem_insert_self⟩

theorem NoneIdle.retract (h : NoneIdle a) (id : ListId) (references : List Announcement) :
    NoneIdle (retract a id references) := by
  rw [ListIndex.retract]
  induction references generalizing a with
  | nil => exact h
  | cons r rest ih =>
    refine ih (h.alter r.message fun ids hids => ?_)
    obtain ⟨old, -, hold⟩ := Option.bind_eq_some_iff.1 hids
    dsimp only at hold
    split at hold
    · cases hold
    · next hne =>
      cases hold
      exact exists_mem_of_not_isEmpty hne

theorem NoneIdle.foldl_retract (h : NoneIdle a) (ls : List MessageList) :
    NoneIdle (ls.foldl (fun a l => ListIndex.retract a l.id l.references) a) := by
  induction ls generalizing a with
  | nil => exact h
  | cons l rest ih => exact ih (h.retract l.id l.references)

/-! ## The invariant -/

/-- The parts of an index fit together. -/
structure Sound (ix : ListIndex) : Prop where
  keyed : ∀ (k : ListId) (l : MessageList), ix.lists[k]? = some l → l.id = k
  own : ∀ (k : ListId) (l : MessageList), ix.lists[k]? = some l →
    ∀ r ∈ l.references, r.message.author = k.author
  announced : ∀ (x : MessageId) (k : ListId), OnRecord ix.announced x k ↔
    ∃ l, ix.lists[k]? = some l ∧ l.announces x = true
  flagged : ∀ (k : ListId) (l : MessageList), ix.lists[k]? = some l →
    ∀ r ∈ l.references, r.downloaded = ix.downloaded.contains r.message
  listed : NoneIdle ix.announced

theorem sound_empty : empty.Sound := by
  refine ⟨?_, ?_, ?_, ?_, noneIdle_empty⟩ <;> simp [empty, OnRecord]

/-- A sound index is determined by its lists and downloads. -/
theorem Sound.ext (h : ix.Sound) (h' : ix'.Sound) (hlists : ix.lists = ix'.lists)
    (hdownloaded : ix.downloaded = ix'.downloaded) : ix = ix' := by
  have hannounced : ix.announced = ix'.announced := by
    refine ext_mem_entries h.listed h'.listed fun x k => ?_
    rw [← OnRecord, ← OnRecord, h.announced, h'.announced, hlists]
  cases ix
  cases ix'
  simp_all

/-! ## Downloads -/

/-- A reference after the download of a message. -/
def marked (x : MessageId) (r : Announcement) : Announcement :=
  if r.message = x then { r with downloaded := true } else r

theorem message_marked (x : MessageId) (r : Announcement) : (marked x r).message = r.message := by
  rw [marked]
  split <;> rfl

theorem downloaded_marked (x : MessageId) (r : Announcement) :
    (marked x r).downloaded = (r.message == x || r.downloaded) := by
  rw [marked]
  split <;> simp [*]

theorem marked_eq_self (h : r.message = x → r.downloaded = true) : marked x r = r := by
  rw [marked]
  split
  · next hr => rw [← h hr]
  · rfl

theorem references_flag (x : MessageId) (l : MessageList) :
    (flag x l).references = l.references.map (marked x) := rfl

theorem flag_eq_self (h : ∀ r ∈ l.references, r.message = x → r.downloaded = true) :
    flag x l = l := by
  have hmap : l.references.map (marked x) = l.references :=
    (List.map_congr_left fun r hr => marked_eq_self (h r hr)).trans l.references.map_id
  exact congrArg (fun references => { l with references }) hmap

theorem flag_flag (x : MessageId) (l : MessageList) : flag x (flag x l) = flag x l := by
  refine flag_eq_self fun r hr hx => ?_
  obtain ⟨r, -, rfl⟩ := List.mem_map.1 (references_flag x l ▸ hr)
  rw [downloaded_marked, ← message_marked x r, hx, beq_self_eq_true, Bool.true_or]

theorem announces_flag (x y : MessageId) (l : MessageList) :
    (flag x l).announces y = l.announces y := by
  simp only [MessageList.announces, references_flag, List.any_map, Function.comp_def,
    message_marked]

theorem getElem?_foldl_modify (ids : List ListId) (ls : ListMap MessageList) :
    (ids.foldl (fun ls k => ls.modify k (flag x)) ls)[k]? =
      if k ∈ ids then ls[k]?.map (flag x) else ls[k]? := by
  induction ids generalizing ls with
  | nil => simp
  | cons id rest ih =>
    rw [List.foldl_cons, ih, Std.ExtTreeMap.getElem?_modify]
    simp only [Std.LawfulEqOrd.compare_eq_iff_eq, List.mem_cons]
    by_cases hk : id = k
    · subst hk
      cases ls[id]? <;> simp [flag_flag]
    · simp [hk, Ne.symm hk]

theorem announced_markDownloaded (ix : ListIndex) (x : MessageId) :
    (ix.markDownloaded x).1.announced = ix.announced := by
  rw [markDownloaded]
  split <;> rfl

theorem mem_lists_markDownloaded : k ∈ (ix.markDownloaded x).1.lists ↔ k ∈ ix.lists := by
  rw [markDownloaded]
  split
  · rfl
  · simp only [Std.ExtTreeMap.mem_iff_isSome_getElem?, getElem?_foldl_modify]
    split <;> simp

theorem mem_downloaded_markDownloaded :
    y ∈ (ix.markDownloaded x).1.downloaded ↔ y = x ∨ y ∈ ix.downloaded := by
  rw [markDownloaded]
  split
  · next hx =>
    have hx := Std.ExtTreeSet.mem_iff_contains.2 hx
    grind
  · simp [@eq_comm _ x y]

theorem downloaded_markDownloaded (ix : ListIndex) (x : MessageId) :
    (ix.markDownloaded x).1.downloaded = ix.downloaded.insert x := by
  refine Std.ExtTreeSet.ext_mem fun y => ?_
  rw [mem_downloaded_markDownloaded, Std.ExtTreeSet.mem_insert, Std.LawfulEqOrd.compare_eq_iff_eq,
    @eq_comm _ x]

namespace Sound

theorem lists_markDownloaded (h : ix.Sound) (x : MessageId) (k : ListId) :
    (ix.markDownloaded x).1.lists[k]? = ix.lists[k]?.map (flag x) := by
  cases hk : ix.lists[k]? with
  | none =>
    rw [markDownloaded]
    split
    · simp [hk]
    · simp [getElem?_foldl_modify, hk]
  | some l =>
    have hsame (hl : ∀ r ∈ l.references, r.message = x → r.downloaded = true) :
        (some l).map (flag x) = some l := by
      rw [Option.map_some, flag_eq_self hl]
    rw [markDownloaded]
    split
    · next hx =>
      rw [hsame fun r hr he => by rw [h.flagged k l hk r hr, he, hx], hk]
    · simp only [getElem?_foldl_modify, hk, mem_announcing, h.announced]
      split
      · rfl
      · next hnot =>
        refine (hsame fun r hr he => ?_).symm
        exact absurd ⟨l, rfl, MessageList.announces_iff.2 ⟨r, hr, he⟩⟩ hnot

theorem markDownloaded (h : ix.Sound) (x : MessageId) : (ix.markDownloaded x).1.Sound := by
  have hlists {k : ListId} {l : MessageList} (hl : (ix.markDownloaded x).1.lists[k]? = some l) :
      ∃ l', ix.lists[k]? = some l' ∧ flag x l' = l := by
    rwa [h.lists_markDownloaded, Option.map_eq_some_iff] at hl
  refine ⟨?_, ?_, ?_, ?_, (announced_markDownloaded ix x).symm ▸ h.listed⟩
  · intro k l hl
    obtain ⟨l', hl', rfl⟩ := hlists hl
    exact h.keyed k l' hl'
  · intro k l hl r hr
    obtain ⟨l', hl', rfl⟩ := hlists hl
    obtain ⟨r', hr', rfl⟩ := List.mem_map.1 (references_flag x l' ▸ hr)
    rw [message_marked]
    exact h.own k l' hl' r' hr'
  · intro y k
    rw [announced_markDownloaded, h.announced, h.lists_markDownloaded]
    simp only [Option.map_eq_some_iff, exists_exists_and_eq_and, announces_flag]
  · intro k l hl r hr
    obtain ⟨l', hl', rfl⟩ := hlists hl
    obtain ⟨r', hr', rfl⟩ := List.mem_map.1 (references_flag x l' ▸ hr)
    rw [message_marked, downloaded_marked, h.flagged k l' hl' r' hr', Bool.eq_iff_iff]
    simp [mem_downloaded_markDownloaded]

theorem foldl_markDownloaded (h : ix.Sound) (ids : List MessageId) :
    (ids.foldl (fun ix id => (ix.markDownloaded id).1) ix).Sound := by
  induction ids generalizing ix with
  | nil => exact h
  | cons id rest ih => exact ih (h.markDownloaded id)

end Sound

theorem mem_lists_foldl (ids : List MessageId) :
    k ∈ (ids.foldl (fun ix id => (ix.markDownloaded id).1) ix).lists ↔ k ∈ ix.lists := by
  induction ids generalizing ix with
  | nil => rfl
  | cons id rest ih => rw [List.foldl_cons, ih, mem_lists_markDownloaded]

theorem mem_downloaded_foldl (ids : List MessageId) :
    y ∈ (ids.foldl (fun ix id => (ix.markDownloaded id).1) ix).downloaded ↔
      y ∈ ids ∨ y ∈ ix.downloaded := by
  induction ids generalizing ix with
  | nil => simp
  | cons id rest ih =>
    rw [List.foldl_cons, ih, mem_downloaded_markDownloaded, List.mem_cons]
    tauto

/-! ## Receiving -/

theorem firstMentions_sublist (seen : IdSet) (references : List Announcement) :
    (firstMentions seen references).Sublist references := by
  induction references generalizing seen with
  | nil => exact .slnil
  | cons r rest ih =>
    rw [firstMentions]
    split
    · exact (ih seen).cons r
    · exact (ih _).cons_cons r

theorem mem_kept (h : r ∈ ix.kept references) : r.downloaded = ix.downloaded.contains r.message ∧
    ∃ r' ∈ references, r'.message = r.message := by
  obtain ⟨r', hr', rfl⟩ := List.mem_map.1 h
  exact ⟨rfl, r', (firstMentions_sublist ∅ references).mem hr', rfl⟩

/-- The messages that a list names, each where it is mentioned first. -/
def named (references : List Announcement) : List MessageId :=
  (firstMentions ∅ references).map (·.message)

theorem mem_firstMentions : x ∈ (firstMentions seen references).map (·.message) ↔
    x ∉ seen ∧ ∃ r ∈ references, r.message = x := by
  induction references generalizing seen with
  | nil => simp [firstMentions]
  | cons r rest ih =>
    rw [firstMentions]
    split
    · next hseen =>
      have hseen := Std.ExtTreeSet.mem_iff_contains.2 hseen
      rw [ih]
      grind
    · next hseen =>
      have hseen := mt Std.ExtTreeSet.mem_iff_contains.1 hseen
      rw [List.map_cons, List.mem_cons, ih, Std.ExtTreeSet.mem_insert,
        Std.LawfulEqOrd.compare_eq_iff_eq]
      grind

theorem mem_named : x ∈ named references ↔ ∃ r ∈ references, r.message = x := by
  simp [named, mem_firstMentions]

theorem message_kept (ix : ListIndex) (references : List Announcement) :
    (ix.kept references).map (·.message) = named references := by
  rw [kept, named, List.map_map]
  rfl

/-- The place in a list where a message is mentioned first. -/
def placeIn (references : List Announcement) (x : MessageId) : Nat :=
  (references.map (·.message)).idxOf x

theorem placeIn_cons_self (r : Announcement) (rest : List Announcement) :
    placeIn (r :: rest) r.message = 0 := by
  rw [placeIn, List.map_cons, List.idxOf_cons_self]

theorem placeIn_cons_of_ne (h : r.message ≠ x) (rest : List Announcement) :
    placeIn (r :: rest) x = placeIn rest x + 1 := by
  rw [placeIn, List.map_cons, List.idxOf_cons, beq_false_of_ne h, cond_false, placeIn]

theorem pairwise_firstMentions (seen : IdSet) (references : List Announcement) :
    ((firstMentions seen references).map (·.message)).Pairwise fun x y =>
      placeIn references x < placeIn references y := by
  induction references generalizing seen with
  | nil => exact .nil
  | cons r rest ih =>
    -- Whichever way `r` goes, what comes after it is other messages, one place further on.
    have hshift (seen : IdSet) (hr : r.message ∈ seen) :
        ((firstMentions seen rest).map (·.message)).Pairwise fun x y =>
          placeIn (r :: rest) x < placeIn (r :: rest) y := by
      refine (ih seen).imp_of_mem fun {x y} hx hy hxy => ?_
      have hother {z : MessageId} (hz : z ∈ (firstMentions seen rest).map (·.message)) :
          r.message ≠ z := by
        rintro rfl
        exact (mem_firstMentions.1 hz).1 hr
      rw [placeIn_cons_of_ne (hother hx), placeIn_cons_of_ne (hother hy)]
      exact Nat.succ_lt_succ hxy
    rw [firstMentions]
    split
    · next hseen => exact hshift seen (Std.ExtTreeSet.mem_iff_contains.2 hseen)
    · have hself : r.message ∈ seen.insert r.message := Std.ExtTreeSet.mem_insert_self
      refine List.pairwise_cons.2 ⟨fun x hx => ?_, hshift _ hself⟩
      have hne : r.message ≠ x := by
        rintro rfl
        exact (mem_firstMentions.1 hx).1 hself
      rw [placeIn_cons_self, placeIn_cons_of_ne hne]
      exact Nat.succ_pos _

/-- The messages of a list are named in the order in which they are mentioned first, each once. -/
theorem pairwise_named (references : List Announcement) :
    (named references).Pairwise fun x y => placeIn references x < placeIn references y :=
  pairwise_firstMentions ∅ references

/-- Whether a message neither counts as downloaded nor is on record as announced. -/
def isNew (ix : ListIndex) (x : MessageId) : Bool :=
  !ix.downloaded.contains x && !ix.announced.contains x

theorem isNew_eq_true : ix.isNew x = true ↔ x ∉ ix.downloaded ∧ x ∉ ix.announced := by
  rw [isNew, Bool.and_eq_true, Bool.not_eq_true', Bool.not_eq_true', ← Bool.not_eq_true,
    ← Bool.not_eq_true, ← Std.ExtTreeSet.mem_iff_contains, ← Std.ExtTreeMap.mem_iff_contains]

theorem newlyWanted_eq (ix : ListIndex) (references : List Announcement) :
    ix.newlyWanted references = (named references).filter ix.isNew := by
  rw [newlyWanted, kept, named, List.filter_map, List.filter_map, List.map_map]
  rfl

/-- On record as announced are the messages that some list announces. -/
theorem Sound.mem_announced_iff (h : ix.Sound) : x ∈ ix.announced ↔
    ∃ (k : ListId) (l : MessageList), ix.lists[k]? = some l ∧ l.announces x = true := by
  simp only [← h.announced, mem_iff_getElem?]
  constructor
  · rintro ⟨ids, hids⟩
    obtain ⟨k, hk⟩ := h.listed x ids hids
    exact ⟨k, ids, hids, hk⟩
  · rintro ⟨k, ids, hids, -⟩
    exact ⟨ids, hids⟩

theorem Sound.isNew_iff (h : ix.Sound) : ix.isNew x = true ↔ x ∉ ix.downloaded ∧
    ¬ ∃ (k : ListId) (l : MessageList), ix.lists[k]? = some l ∧ l.announces x = true := by
  rw [isNew_eq_true, h.mem_announced_iff]

theorem mem_newlyWanted : x ∈ ix.newlyWanted references ↔
    (∃ r ∈ references, r.message = x) ∧ x ∉ ix.downloaded ∧ x ∉ ix.announced := by
  rw [newlyWanted_eq, List.mem_filter, mem_named, isNew_eq_true]

theorem author_of_check {limits : ListLimits} (h : check limits id references = .ok ())
    (hr : r ∈ references) : r.message.author = id.author := by
  rw [check] at h
  split at h
  · split at h
    · cases h
    · next hnone => simpa using List.find?_eq_none.1 hnone r hr
  · cases h

theorem receive_of_fresh {limits : ListLimits} (hfresh : id ∉ ix.lists)
    (hcheck : check limits id references = .ok ()) (received : Timestamp) :
    ix.receive limits id references received = .ok
      ({ ix with
          lists := ix.lists.insert id { id, received, references := ix.kept references }
          announced := announce ix.announced id (ix.kept references) },
        ix.newlyWanted references) := by
  have hcontains : ix.lists.contains id = false :=
    Bool.eq_false_iff.2 fun h => hfresh (Std.ExtTreeMap.mem_iff_contains.2 h)
  rw [receive, hcontains, hcheck]
  rfl

/-- What an accepted list does: nothing if it is known, otherwise it is kept and recorded. -/
theorem receive_cases {limits : ListLimits} {received : Timestamp} {wanted : List MessageId}
    (h : ix.receive limits id references received = .ok (ix', wanted)) :
    (id ∈ ix.lists ∧ ix' = ix ∧ wanted = []) ∨
      (id ∉ ix.lists ∧ check limits id references = .ok () ∧
        wanted = ix.newlyWanted references ∧
        ix' = { ix with
          lists := ix.lists.insert id { id, received, references := ix.kept references }
          announced := announce ix.announced id (ix.kept references) }) := by
  rw [receive] at h
  split at h
  · next hknown =>
    cases h
    exact .inl ⟨Std.ExtTreeMap.mem_iff_contains.2 hknown, rfl, rfl⟩
  · next hnew =>
    cases hcheck : check limits id references with
    | error e => simp [hcheck] at h
    | ok u =>
      simp only [hcheck, Except.ok.injEq, Prod.mk.injEq] at h
      exact .inr ⟨mt Std.ExtTreeMap.mem_iff_contains.1 hnew, rfl, h.2.symm, h.1.symm⟩

theorem downloaded_receive {limits : ListLimits} {received : Timestamp} {wanted : List MessageId}
    (h : ix.receive limits id references received = .ok (ix', wanted)) :
    ix'.downloaded = ix.downloaded := by
  obtain ⟨-, rfl, -⟩ | ⟨-, -, -, rfl⟩ := receive_cases h <;> rfl

/-- A message is on record as announced and does not count as downloaded. -/
def Pending (ix : ListIndex) (x : MessageId) : Prop := x ∈ ix.announced ∧ x ∉ ix.downloaded

/-- A list makes wanted what was not pending before and is pending now. -/
theorem mem_wanted_receive {limits : ListLimits} {received : Timestamp} {wanted : List MessageId}
    (h : ix.receive limits id references received = .ok (ix', wanted)) :
    x ∈ wanted ↔ ix'.Pending x ∧ ¬ ix.Pending x := by
  obtain ⟨-, rfl, rfl⟩ | ⟨-, -, rfl, rfl⟩ := receive_cases h
  · simp
  · have hkept : (∃ r ∈ ix.kept references, r.message = x) ↔ ∃ r ∈ references, r.message = x := by
      rw [← List.mem_map, message_kept, mem_named]
    rw [mem_newlyWanted, Pending, Pending, mem_announce, hkept]
    tauto

theorem pairwise_wanted_receive {limits : ListLimits} {received : Timestamp}
    {wanted : List MessageId}
    (h : ix.receive limits id references received = .ok (ix', wanted)) :
    wanted.Pairwise fun x y => placeIn references x < placeIn references y := by
  obtain ⟨-, -, rfl⟩ | ⟨-, -, rfl, -⟩ := receive_cases h
  · exact .nil
  · rw [newlyWanted_eq]
    exact (pairwise_named references).filter _

theorem mem_lists_receive {limits : ListLimits} {received : Timestamp} {wanted : List MessageId}
    (h : ix.receive limits id references received = .ok (ix', wanted)) (hk : k ∈ ix'.lists) :
    k ∈ ix.lists ∨ k = id := by
  obtain ⟨-, rfl, -⟩ | ⟨-, -, -, rfl⟩ := receive_cases h
  · exact .inl hk
  · rw [Std.ExtTreeMap.mem_insert, Std.LawfulEqOrd.compare_eq_iff_eq] at hk
    exact hk.symm.imp_right Eq.symm

theorem Sound.receive {limits : ListLimits} {received : Timestamp} {wanted : List MessageId}
    (h : ix.Sound) (hr : ix.receive limits id references received = .ok (ix', wanted)) :
    ix'.Sound := by
  obtain ⟨-, rfl, -⟩ | ⟨hnew, hcheck, -, rfl⟩ := receive_cases hr
  · exact h
  have hlists {k : ListId} {l : MessageList} :
      (ix.lists.insert id { id, received, references := ix.kept references })[k]? = some l ↔
        (k = id ∧ l = { id, received, references := ix.kept references }) ∨
          (k ≠ id ∧ ix.lists[k]? = some l) := by
    rw [Std.ExtTreeMap.getElem?_insert]
    simp only [Std.LawfulEqOrd.compare_eq_iff_eq]
    grind
  refine ⟨?_, ?_, ?_, ?_, h.listed.announce id (ix.kept references)⟩
  · intro k l hl
    obtain ⟨rfl, rfl⟩ | ⟨-, hl⟩ := hlists.1 hl
    · rfl
    · exact h.keyed k l hl
  · intro k l hl r hr
    obtain ⟨rfl, rfl⟩ | ⟨-, hl⟩ := hlists.1 hl
    · obtain ⟨-, r', hr', he⟩ := mem_kept hr
      rw [← he]
      exact author_of_check hcheck hr'
    · exact h.own k l hl r hr
  · intro x k
    simp only [onRecord_announce, h.announced, hlists]
    have hnone : ix.lists[id]? = none := Std.ExtTreeMap.getElem?_eq_none hnew
    by_cases hk : k = id
    · subst hk
      simp [hnone, MessageList.announces_iff]
    · simp [hk]
  · intro k l hl r hr
    obtain ⟨rfl, rfl⟩ | ⟨-, hl⟩ := hlists.1 hl
    · exact (mem_kept hr).1
    · exact h.flagged k l hl r hr

/-! ## Authors -/

theorem mem_listsOf (h : ix.Sound) {author : IdentityId} :
    l ∈ ix.listsOf author ↔ ix.lists[l.id]? = some l ∧ l.id.author = author := by
  simp only [listsOf, List.mem_filter, List.mem_map, Prod.exists, exists_eq_right,
    Std.ExtTreeMap.mem_toList_iff_getElem?_eq_some, beq_iff_eq]
  constructor
  · rintro ⟨⟨k, hl⟩, ha⟩
    exact ⟨(h.keyed k l hl).symm ▸ hl, ha⟩
  · rintro ⟨hl, ha⟩
    exact ⟨⟨l.id, hl⟩, ha⟩

theorem onRecord_foldl_retract (ls : List MessageList) :
    OnRecord (ls.foldl (fun a l => retract a l.id l.references) a) x k ↔
      OnRecord a x k ∧ ∀ l ∈ ls, l.id = k → l.announces x = false := by
  induction ls generalizing a with
  | nil => simp
  | cons l rest ih =>
    rw [List.foldl_cons, ih, onRecord_retract, ← MessageList.announces_iff, List.forall_mem_cons,
      and_assoc, not_and, Bool.not_eq_true, @eq_comm _ k]

theorem lists_removeAuthor (ix : ListIndex) (author : IdentityId) (k : ListId) :
    (ix.removeAuthor author).1.lists[k]? =
      if k.author = author then none else ix.lists[k]? := by
  rw [removeAuthor, getElem?_filter_key ix.lists fun k => k.author != author]
  simp

theorem mem_lists_removeAuthor {author : IdentityId} :
    k ∈ (ix.removeAuthor author).1.lists ↔ k.author ≠ author ∧ k ∈ ix.lists := by
  rw [Std.ExtTreeMap.mem_iff_isSome_getElem?, lists_removeAuthor]
  split <;> simp [*]

theorem mem_downloaded_removeAuthor {author : IdentityId} :
    x ∈ (ix.removeAuthor author).1.downloaded ↔ x ∈ ix.downloaded ∧ x.author ≠ author := by
  simp [removeAuthor, Std.ExtTreeSet.mem_filter]

theorem Sound.removeAuthor (h : ix.Sound) (author : IdentityId) :
    (ix.removeAuthor author).1.Sound := by
  have hlists {k : ListId} {l : MessageList} :
      (ix.removeAuthor author).1.lists[k]? = some l ↔
        k.author ≠ author ∧ ix.lists[k]? = some l := by
    rw [lists_removeAuthor]
    split <;> simp [*]
  refine ⟨?_, ?_, ?_, ?_, h.listed.foldl_retract (ix.listsOf author)⟩
  · exact fun k l hl => h.keyed k l (hlists.1 hl).2
  · exact fun k l hl => h.own k l (hlists.1 hl).2
  · intro x k
    have hrecord : OnRecord (ix.removeAuthor author).1.announced x k ↔
        (∃ l, ix.lists[k]? = some l ∧ l.announces x = true) ∧
          ∀ l : MessageList, ix.lists[l.id]? = some l ∧ l.id.author = author → l.id = k →
            l.announces x = false := by
      simp only [ListIndex.removeAuthor, onRecord_foldl_retract, h.announced, mem_listsOf h]
    simp only [hrecord, hlists]
    constructor
    · rintro ⟨⟨l, hl, hx⟩, hall⟩
      refine ⟨l, ⟨fun ha => ?_, hl⟩, hx⟩
      have hid := h.keyed k l hl
      simp [hall l ⟨hid.symm ▸ hl, hid.symm ▸ ha⟩ hid] at hx
    · rintro ⟨l, ⟨ha, hl⟩, hx⟩
      exact ⟨⟨l, hl, hx⟩, fun l' hl' hid => absurd (hid ▸ hl'.2) ha⟩
  · intro k l hl r hr
    obtain ⟨hk, hl⟩ := hlists.1 hl
    have hown := h.own k l hl r hr
    rw [h.flagged k l hl r hr, Bool.eq_iff_iff]
    simp [mem_downloaded_removeAuthor, hown, hk]

/-! ## Wanted messages -/

theorem earlierOf_mem (known : Option Announcement) (r : Announcement) :
    earlierOf known r = r ∨ known = some (earlierOf known r) := by
  cases known with
  | none => exact .inl rfl
  | some k =>
    rw [earlierOf]
    split
    · exact .inl rfl
    · exact .inr rfl

/-- What is kept under an id after some references is determined by those to the id. -/
theorem getElem?_foldl_earlierOf (rs : List Announcement) (pending : IdMap Announcement) :
    (rs.foldl (fun pending r => pending.alter r.message fun known => some (earlierOf known r))
      pending)[x]? =
      (rs.filter (·.message == x)).foldl (fun known r => some (earlierOf known r)) pending[x]? := by
  induction rs generalizing pending with
  | nil => rfl
  | cons r rest ih =>
    rw [List.foldl_cons, ih, Std.ExtTreeMap.getElem?_alter]
    by_cases hr : r.message = x
    · subst hr
      simp
    · simp [hr]

theorem isSome_foldl_earlierOf (rs : List Announcement) (known : Option Announcement) :
    (rs.foldl (fun known r => some (earlierOf known r)) known).isSome = true ↔
      known.isSome = true ∨ rs ≠ [] := by
  induction rs generalizing known with
  | nil => simp
  | cons r rest ih => simp [ih]

theorem mem_of_foldl_earlierOf {rs : List Announcement} {known : Option Announcement}
    (h : rs.foldl (fun known r => some (earlierOf known r)) known = some r) :
    r ∈ rs ∨ known = some r := by
  induction rs generalizing known with
  | nil => exact .inr h
  | cons r' rest ih =>
    rcases ih h with hr | hr
    · exact .inl (List.mem_cons_of_mem r' hr)
    · obtain rfl := Option.some.inj hr
      exact (earlierOf_mem known r').imp (fun he => List.mem_cons.2 (.inl he)) id

theorem announced_earlierOf_le (known : Option Announcement) (r : Announcement) :
    (earlierOf known r).announced ≤ r.announced ∧
      ∀ k ∈ known, (earlierOf known r).announced ≤ k.announced := by
  cases known with
  | none => exact ⟨UInt64.le_refl _, by simp⟩
  | some k =>
    simp only [earlierOf, Option.mem_some_iff, forall_eq']
    split
    · next h => exact ⟨UInt64.le_refl _, UInt64.le_of_lt h⟩
    · next h => exact ⟨UInt64.not_lt.1 h, UInt64.le_refl _⟩

/-- What is kept of some references is announced no later than any of them. -/
theorem announced_foldl_earlierOf_le {rs : List Announcement} {known : Option Announcement}
    (h : rs.foldl (fun known r => some (earlierOf known r)) known = some r) :
    (∀ r' ∈ rs, r.announced ≤ r'.announced) ∧ ∀ k ∈ known, r.announced ≤ k.announced := by
  induction rs generalizing known with
  | nil =>
    refine ⟨by simp, fun k hk => ?_⟩
    cases hk
    cases h
    exact UInt64.le_refl _
  | cons r' rest ih =>
    obtain ⟨hrest, hearlier⟩ := ih h
    have hstep := hearlier _ rfl
    obtain ⟨hle, hknown⟩ := announced_earlierOf_le known r'
    exact ⟨List.forall_mem_cons.2 ⟨UInt64.le_trans hstep hle, hrest⟩,
      fun k hk => UInt64.le_trans hstep (hknown k hk)⟩

/-- Some list of the index has the reference. -/
def Keeps (ix : ListIndex) (r : Announcement) : Prop :=
  ∃ (k : ListId) (l : MessageList), ix.lists[k]? = some l ∧ r ∈ l.references

theorem mem_unflagged : r ∈ (ix.lists.toList.flatMap fun (_, l) =>
    l.references.filter (!·.downloaded)) ↔ ix.Keeps r ∧ r.downloaded = false := by
  simp only [List.mem_flatMap, Prod.exists, Std.ExtTreeMap.mem_toList_iff_getElem?_eq_some,
    List.mem_filter, Keeps, Bool.not_eq_true']
  constructor
  · rintro ⟨k, l, hl, hr, hnot⟩
    exact ⟨⟨k, l, hl, hr⟩, hnot⟩
  · rintro ⟨⟨k, l, hl, hr⟩, hnot⟩
    exact ⟨k, l, hl, hr, hnot⟩

/-- Some list refers to a message that is not downloaded. -/
def Wants (ix : ListIndex) (x : MessageId) : Prop :=
  ∃ (k : ListId) (l : MessageList), ix.lists[k]? = some l ∧
    ∃ r ∈ l.references, r.message = x ∧ r.downloaded = false

theorem mem_wanted : x ∈ ix.wanted ↔ ix.Wants x := by
  rw [Std.ExtTreeMap.mem_iff_isSome_getElem?, wanted, getElem?_foldl_earlierOf,
    isSome_foldl_earlierOf]
  simp only [ne_eq, List.filter_eq_nil_iff, mem_unflagged, Std.ExtTreeMap.getElem?_empty,
    Option.isSome_none, Bool.false_eq_true, false_or]
  push Not
  constructor
  · rintro ⟨r, ⟨⟨k, l, hl, hr⟩, hnot⟩, hx⟩
    exact ⟨k, l, hl, r, hr, by simpa using hx, hnot⟩
  · rintro ⟨k, l, hl, r, hr, hx, hnot⟩
    exact ⟨r, ⟨⟨k, l, hl, hr⟩, hnot⟩, by simpa using hx⟩

/-- What is wanted of a message is the earliest reference to it that is not flagged. -/
theorem earliest_of_wanted (h : ix.wanted[x]? = some r) :
    r.message = x ∧ ix.Keeps r ∧ r.downloaded = false ∧
      ∀ r', ix.Keeps r' → r'.downloaded = false → r'.message = x → r.announced ≤ r'.announced := by
  rw [wanted, getElem?_foldl_earlierOf, Std.ExtTreeMap.getElem?_empty] at h
  obtain ⟨hr, hx⟩ := List.mem_filter.1 ((mem_of_foldl_earlierOf h).resolve_right (by simp))
  obtain ⟨hkeeps, hnot⟩ := mem_unflagged.1 hr
  refine ⟨by simpa using hx, hkeeps, hnot, fun r' hr' hnot' hx' => ?_⟩
  refine (announced_foldl_earlierOf_le h).1 r' (List.mem_filter.2 ⟨?_, by simpa using hx'⟩)
  exact mem_unflagged.2 ⟨hr', hnot'⟩

theorem message_of_wanted (h : ix.wanted[x]? = some r) : r.message = x := (earliest_of_wanted h).1

theorem mem_toFetch_iff_wanted : r ∈ ix.toFetch ↔ ix.wanted[r.message]? = some r := by
  simp only [toFetch, List.mem_mergeSort, List.mem_map, Prod.exists, exists_eq_right,
    Std.ExtTreeMap.mem_toList_iff_getElem?_eq_some]
  constructor
  · rintro ⟨x, hx⟩
    rwa [message_of_wanted hx]
  · exact fun h => ⟨r.message, h⟩

theorem mem_toFetch : x ∈ ix.toFetch.map (·.message) ↔ ix.Wants x := by
  rw [← mem_wanted, mem_iff_getElem?, List.mem_map]
  simp only [mem_toFetch_iff_wanted]
  constructor
  · rintro ⟨r, hr, rfl⟩
    exact ⟨r, hr⟩
  · rintro ⟨r, hr⟩
    obtain rfl := message_of_wanted hr
    exact ⟨r, hr, rfl⟩

theorem Sound.downloaded_of_keeps (h : ix.Sound) (hr : ix.Keeps r) :
    r.downloaded = ix.downloaded.contains r.message := by
  obtain ⟨k, l, hl, hr⟩ := hr
  exact h.flagged k l hl r hr

/-- No reference to a message is announced earlier than the one by which it is fetched. -/
theorem Sound.earliest_of_mem_toFetch (h : ix.Sound) (hr : r ∈ ix.toFetch) : ix.Keeps r ∧
    ∀ r', ix.Keeps r' → r'.message = r.message → r.announced ≤ r'.announced := by
  obtain ⟨-, hkeeps, hnot, hearliest⟩ := earliest_of_wanted (mem_toFetch_iff_wanted.1 hr)
  refine ⟨hkeeps, fun r' hr' hmessage => hearliest r' hr' ?_ hmessage⟩
  rw [h.downloaded_of_keeps hr', hmessage, ← h.downloaded_of_keeps hkeeps, hnot]

theorem nodup_message_wanted (ix : ListIndex) :
    ((ix.wanted.toList.map (·.2)).map (·.message)).Nodup := by
  have hkeys : (ix.wanted.toList.map (·.2)).map (·.message) = ix.wanted.keys := by
    rw [List.map_map, ← Std.ExtTreeMap.map_fst_toList_eq_keys]
    refine List.map_congr_left fun e he => ?_
    exact message_of_wanted (Std.ExtTreeMap.mem_toList_iff_getElem?_eq_some.1 he)
  rw [hkeys]
  exact nodup_keys ix.wanted

theorem nodup_toFetch (ix : ListIndex) : (ix.toFetch.map (·.message)).Nodup :=
  ((List.mergeSort_perm _ _).map _).nodup_iff.2 ix.nodup_message_wanted

/-- References are fetched by date and then by id. -/
theorem pairwise_toFetch (ix : ListIndex) : ix.toFetch.Pairwise fun a b =>
    a.announced < b.announced ∨ (a.announced = b.announced ∧ compare a.message b.message = .lt) :=
  (pairwise_mergeSort_keys ix.nodup_message_wanted).imp fun h => h.imp_left Std.compare_eq_lt.1

/-- A message is wanted if some list announces it and it does not count as downloaded. -/
theorem Sound.wants_iff (h : ix.Sound) : ix.Wants x ↔
    (∃ (k : ListId) (l : MessageList), ix.lists[k]? = some l ∧ l.announces x = true) ∧
      x ∉ ix.downloaded := by
  constructor
  · rintro ⟨k, l, hl, r, hr, rfl, hnot⟩
    rw [h.flagged k l hl r hr, ← Bool.not_eq_true, ← Std.ExtTreeSet.mem_iff_contains] at hnot
    exact ⟨⟨k, l, hl, MessageList.announces_iff.2 ⟨r, hr, rfl⟩⟩, hnot⟩
  · rintro ⟨⟨k, l, hl, hx⟩, hnot⟩
    obtain ⟨r, hr, rfl⟩ := MessageList.announces_iff.1 hx
    refine ⟨k, l, hl, r, hr, rfl, ?_⟩
    rwa [h.flagged k l hl r hr, ← Bool.not_eq_true, ← Std.ExtTreeSet.mem_iff_contains]

theorem Sound.not_wants (h : ix.Sound) (hx : x ∈ ix.downloaded) : ¬ ix.Wants x := by
  rw [h.wants_iff]
  exact fun hwants => hwants.2 hx

end ListIndex

end Noticeboard
