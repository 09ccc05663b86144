import Mathlib.Algebra.GroupWithZero.Nat
import Mathlib.Data.List.Basic
import Mathlib.Data.List.Induction
import Noticeboard.Proofs.ListIndex.Interleaving

/-!
# Removing an author without a trace

What an index keeps of one author does not depend on what it is asked to do for another: a list names
messages of its own author alone. So a removal of an author undoes every request about the author
(`Sound.removeAuthor_serve_of_eq`) and passes over all others (`Sound.removeAuthor_serve_of_ne`), and
after any requests it leaves the index as if those about the author had never been made
(`served_removeAuthor`).
-/

namespace Noticeboard

namespace ListIndex

variable {ix : ListIndex} {limits : ListLimits} {a : IdentityId} {id k : ListId} {x : MessageId}
  {references : List Announcement}

/-! ## Requests -/

/-- A list or a download comes in, or an author is removed. -/
inductive Request where
  | call (c : Call)
  | removeAuthor (author : IdentityId)
deriving DecidableEq

/-- Whose list it is, or whose message. -/
def Call.author : Call → IdentityId
  | .receive id _ _ => id.author
  | .markDownloaded id => id.author

/-- Whom a request is about. -/
def Request.author : Request → IdentityId
  | .call c => c.author
  | .removeAuthor author => author

/-- An index after a request. -/
def serve (limits : ListLimits) (ix : ListIndex) : Request → ListIndex
  | .call c => ix.call limits c
  | .removeAuthor author => (ix.removeAuthor author).1

/-- An empty index after several requests. -/
def served (limits : ListLimits) (rs : List Request) : ListIndex := rs.foldl (serve limits) empty

/-! ## What a list that comes in changes -/

theorem downloaded_call_receive (ix : ListIndex) (limits : ListLimits) (id : ListId)
    (references : List Announcement) (received : Timestamp) :
    (ix.call limits (.receive id references received)).downloaded = ix.downloaded := by
  rw [call]
  split
  · next hr => exact downloaded_receive hr
  · rfl

theorem lists_call_receive (ix : ListIndex) (limits : ListLimits) (id : ListId)
    (references : List Announcement) (received : Timestamp) (k : ListId) :
    (ix.call limits (.receive id references received)).lists[k]? =
      if id = k ∧ k ∉ ix.lists ∧ check limits id references = .ok () then
        some { id, received, references := ix.kept references }
      else ix.lists[k]? := by
  rw [call]
  split
  · next ix' wanted hr =>
    obtain ⟨hknown, rfl, -⟩ | ⟨hfresh, hcheck, -, rfl⟩ := receive_cases hr
    · rw [if_neg]
      rintro ⟨rfl, hfresh, -⟩
      exact hfresh hknown
    · simp only [Std.ExtTreeMap.getElem?_insert, Std.LawfulEqOrd.compare_eq_iff_eq]
      by_cases hk : id = k
      · rw [if_pos hk, if_pos ⟨hk, hk ▸ hfresh, hcheck⟩]
      · rw [if_neg hk, if_neg fun hnew => hk hnew.1]
  · next e hr =>
    rw [if_neg]
    rintro ⟨rfl, hfresh, hcheck⟩
    rw [receive_of_fresh hfresh hcheck] at hr
    cases hr

theorem Sound.serve (h : ix.Sound) (limits : ListLimits) (r : Request) :
    (ix.serve limits r).Sound := by
  cases r with
  | call c =>
    cases c with
    | receive id references received =>
      rw [ListIndex.serve, call]
      split
      · next hr => exact h.receive hr
      · exact h
    | markDownloaded x => exact h.markDownloaded x
  | removeAuthor a => exact h.removeAuthor a

theorem sound_served (limits : ListLimits) (rs : List Request) : (served limits rs).Sound := by
  suffices ∀ ix : ListIndex, ix.Sound → (rs.foldl (ListIndex.serve limits) ix).Sound from
    this empty sound_empty
  induction rs with
  | nil => exact fun _ h => h
  | cons r rs ih => exact fun ix h => ih _ (h.serve limits r)

/-! ## Requests about others -/

namespace Sound

variable {r : Request}

/-- A request leaves the lists of everybody whom it is not about. -/
theorem lists_serve_of_ne (h : ix.Sound) (hk : k.author ≠ r.author) :
    (ix.serve limits r).lists[k]? = ix.lists[k]? := by
  cases r with
  | call c =>
    cases c with
    | receive id references received =>
      rw [ListIndex.serve, lists_call_receive, if_neg]
      rintro ⟨rfl, -⟩
      exact hk rfl
    | markDownloaded x =>
      rw [ListIndex.serve, call, h.lists_markDownloaded]
      cases hl : ix.lists[k]? with
      | none => rfl
      | some l =>
        rw [Option.map_some, flag_eq_self]
        rintro reference hreference rfl
        exact absurd (h.own k l hl reference hreference).symm hk
  | removeAuthor b =>
    rw [ListIndex.serve, lists_removeAuthor]
    exact if_neg hk

/-- A request leaves the downloads of everybody whom it is not about. -/
theorem mem_downloaded_serve_of_ne (hx : x.author ≠ r.author) :
    x ∈ (ix.serve limits r).downloaded ↔ x ∈ ix.downloaded := by
  cases r with
  | call c =>
    cases c with
    | receive id references received => rw [ListIndex.serve, downloaded_call_receive]
    | markDownloaded y =>
      rw [ListIndex.serve, call, mem_downloaded_markDownloaded]
      refine or_iff_right ?_
      rintro rfl
      exact hx rfl
  | removeAuthor b =>
    rw [ListIndex.serve, mem_downloaded_removeAuthor]
    exact and_iff_left hx

end Sound

/-! ## What a removal passes over -/

/-- The references of a list by somebody else are flagged as they were. -/
theorem kept_removeAuthor (hcheck : check limits id references = .ok ()) (hid : id.author ≠ a) :
    (ix.removeAuthor a).1.kept references = ix.kept references := by
  refine List.map_congr_left fun r hr => ?_
  have hauthor := author_of_check hcheck ((firstMentions_sublist ∅ references).mem hr)
  have hflag : (ix.removeAuthor a).1.downloaded.contains r.message =
      ix.downloaded.contains r.message := by
    rw [Bool.eq_iff_iff, ← Std.ExtTreeSet.mem_iff_contains, ← Std.ExtTreeSet.mem_iff_contains,
      mem_downloaded_removeAuthor, hauthor]
    exact and_iff_left hid
  rw [hflag]

namespace Sound

variable {r : Request}

/-- What a request does to the lists of others than `a` does not depend on those of `a`. -/
theorem lists_serve_removeAuthor (h : ix.Sound) (hr : r.author ≠ a) (hk : k.author ≠ a) :
    ((ix.removeAuthor a).1.serve limits r).lists[k]? = (ix.serve limits r).lists[k]? := by
  have hlist : (ix.removeAuthor a).1.lists[k]? = ix.lists[k]? := by
    rw [lists_removeAuthor, if_neg hk]
  cases r with
  | call c =>
    cases c with
    | receive id references received =>
      have hknown : k ∉ (ix.removeAuthor a).1.lists ↔ k ∉ ix.lists := by
        rw [mem_lists_removeAuthor, and_iff_right hk]
      rw [ListIndex.serve, ListIndex.serve, lists_call_receive, lists_call_receive, hlist]
      simp only [hknown]
      split
      · next hnew => rw [kept_removeAuthor hnew.2.2 hr]
      · rfl
    | markDownloaded x =>
      rw [ListIndex.serve, ListIndex.serve, call, call, (h.removeAuthor a).lists_markDownloaded,
        h.lists_markDownloaded, hlist]
  | removeAuthor b =>
    rw [ListIndex.serve, ListIndex.serve, lists_removeAuthor, hlist, lists_removeAuthor]

theorem mem_downloaded_serve_removeAuthor (hr : r.author ≠ a) :
    x ∈ ((ix.removeAuthor a).1.serve limits r).downloaded ↔
      x ∈ (ix.serve limits r).downloaded ∧ x.author ≠ a := by
  cases r with
  | call c =>
    cases c with
    | receive id references received =>
      rw [ListIndex.serve, ListIndex.serve, downloaded_call_receive, downloaded_call_receive,
        mem_downloaded_removeAuthor]
    | markDownloaded y =>
      rw [ListIndex.serve, ListIndex.serve, call, call, mem_downloaded_markDownloaded,
        mem_downloaded_markDownloaded, mem_downloaded_removeAuthor, or_and_right]
      refine or_congr_left (iff_self_and.2 ?_)
      rintro rfl
      exact hr
  | removeAuthor b =>
    simp only [ListIndex.serve, mem_downloaded_removeAuthor]
    exact and_right_comm

/-- A removal takes an index to another, if that has nothing by the author and the same by others. -/
theorem removeAuthor_eq {ix' : ListIndex} (h : ix.Sound) (h' : ix'.Sound)
    (hlists : ∀ k : ListId, ix'.lists[k]? = if k.author = a then none else ix.lists[k]?)
    (hdownloaded : ∀ x, x ∈ ix'.downloaded ↔ x ∈ ix.downloaded ∧ x.author ≠ a) :
    (ix.removeAuthor a).1 = ix' := by
  refine (h.removeAuthor a).ext h' (Std.ExtTreeMap.ext_getElem? fun k => ?_)
    (Std.ExtTreeSet.ext_mem fun x => ?_)
  · rw [lists_removeAuthor, hlists]
  · rw [mem_downloaded_removeAuthor, hdownloaded]

/-- A removal undoes a request about the author. -/
theorem removeAuthor_serve_of_eq (h : ix.Sound) (hr : r.author = a) :
    ((ix.serve limits r).removeAuthor a).1 = (ix.removeAuthor a).1 := by
  refine (h.serve limits r).removeAuthor_eq (h.removeAuthor a) (fun k => ?_) fun x => ?_
  · rw [lists_removeAuthor]
    by_cases hk : k.author = a
    · rw [if_pos hk, if_pos hk]
    · rw [if_neg hk, if_neg hk, h.lists_serve_of_ne (hr ▸ hk)]
  · rw [mem_downloaded_removeAuthor]
    exact and_congr_left fun hx => (mem_downloaded_serve_of_ne (hr ▸ hx)).symm

/-- A removal may be made before a request about somebody else. -/
theorem removeAuthor_serve_of_ne (h : ix.Sound) (hr : r.author ≠ a) :
    ((ix.serve limits r).removeAuthor a).1 = (ix.removeAuthor a).1.serve limits r := by
  have hremoved := h.removeAuthor a
  refine (h.serve limits r).removeAuthor_eq (hremoved.serve limits r) (fun k => ?_)
    fun x => mem_downloaded_serve_removeAuthor hr
  by_cases hk : k.author = a
  · rw [hremoved.lists_serve_of_ne (hk ▸ hr.symm), lists_removeAuthor, if_pos hk, if_pos hk]
  · rw [h.lists_serve_removeAuthor hr hk, if_neg hk]

/-! ## The report -/

/-- A removal reports the lists of the author, by edition, and how many references they had. -/
theorem removeAuthor_snd (h : ix.Sound) (a : IdentityId) :
    let theirs := ix.lists.filter fun k _ => k.author == a
    (ix.removeAuthor a).2 =
      { lists := theirs.keys
        references := (theirs.toList.map fun e => e.2.references.length).sum } := by
  intro theirs
  have htheirs : theirs.toList = ix.lists.toList.filter fun e => e.2.id.author == a := by
    rw [Std.ExtTreeMap.toList_filter]
    refine List.filter_congr fun e he => ?_
    rw [h.keyed e.1 e.2 (Std.ExtTreeMap.mem_toList_iff_getElem?_eq_some.1 he)]
  have hlists : ix.listsOf a = theirs.toList.map (·.2) := by
    rw [htheirs, listsOf, List.filter_map]
    rfl
  have hkeys : theirs.keys = (ix.listsOf a).map (·.id) := by
    rw [hlists, ← Std.ExtTreeMap.map_fst_toList_eq_keys, List.map_map]
    refine List.map_congr_left fun e he => ?_
    rw [htheirs] at he
    exact (h.keyed e.1 e.2 (Std.ExtTreeMap.mem_toList_iff_getElem?_eq_some.1
      (List.mem_of_mem_filter he))).symm
  simp only [ListIndex.removeAuthor, hkeys, hlists, List.map_map, ← List.sum_eq_foldl,
    Function.comp_def]

end Sound

theorem removeAuthor_empty (a : IdentityId) : (empty.removeAuthor a).1 = empty :=
  sound_empty.removeAuthor_eq sound_empty (fun k => by simp [empty]) fun x => by simp [empty]

theorem served_concat (limits : ListLimits) (rs : List Request) (r : Request) :
    served limits (rs ++ [r]) = (served limits rs).serve limits r := by
  rw [served, served, List.foldl_concat]

/-- After a removal it is as if the requests about the author had not been made. -/
theorem removeAuthor_served (limits : ListLimits) (rs : List Request) (a : IdentityId) :
    ((served limits rs).removeAuthor a).1 = served limits (rs.filter (·.author != a)) := by
  induction rs using List.reverseRecOn with
  | nil => exact removeAuthor_empty a
  | append_singleton rs r ih =>
    have hsound := sound_served limits rs
    rw [served_concat, List.filter_append]
    by_cases hr : r.author = a
    · rw [hsound.removeAuthor_serve_of_eq hr, ih, List.filter_cons_of_neg (by simp [hr]),
        List.filter_nil, List.append_nil]
    · rw [hsound.removeAuthor_serve_of_ne hr, ih, List.filter_cons_of_pos (by simp [hr]),
        List.filter_nil, served_concat]

/-- After any requests, the removal of an author leaves the index that the requests about others alone
would have led to, in all its parts. Its report lists what the index had by the author, and counts the
references in it. -/
theorem served_removeAuthor (limits : ListLimits) (rs : List Request) (a : IdentityId) :
    let ix := served limits rs
    let theirs := ix.lists.filter fun k _ => k.author == a
    let removed := (ix.removeAuthor a).2
    (ix.removeAuthor a).1 = served limits (rs.filter (·.author != a)) ∧
      removed.lists = theirs.keys ∧ removed.lists.length = theirs.size ∧
      removed.references = (theirs.toList.map fun e => e.2.references.length).sum := by
  intro ix theirs removed
  have hreport : removed = { lists := theirs.keys, references := _ } :=
    (sound_served limits rs).removeAuthor_snd a
  refine ⟨removeAuthor_served limits rs a, ?_⟩
  rw [hreport]
  exact ⟨rfl, Std.ExtTreeMap.length_keys, rfl⟩

end ListIndex

end Noticeboard
