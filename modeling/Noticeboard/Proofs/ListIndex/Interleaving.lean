import Noticeboard.Proofs.ListIndex

/-!
# Lists and downloads in any order

An index learns of lists and of downloads by separate calls, and it may hear the same twice. Each call
keeps the following (`ListIndex.Reflects`): the index holds the lists that have arrived, as they came
first, with the flags that the downloads so far call for. So two interleavings of the same deliveries
end in the same index, which can be read off the deliveries (`ListIndex.calls_interleaved`).
-/

namespace Noticeboard

namespace ListIndex

variable {ix : ListIndex} {limits : ListLimits} {k id : ListId} {x : MessageId}

/-! ## Calls -/

/-- A list with its references arrives on a date, or a message has been downloaded. -/
inductive Call where
  | receive (id : ListId) (references : List Announcement) (received : Timestamp)
  | markDownloaded (id : MessageId)
deriving DecidableEq

/-- An index after a call. A list that is refused changes nothing. -/
def call (limits : ListLimits) (ix : ListIndex) : Call → ListIndex
  | .receive id references received =>
    match ix.receive limits id references received with
    | .ok (ix', _) => ix'
    | .error _ => ix
  | .markDownloaded id => (ix.markDownloaded id).1

/-- An empty index after several calls. -/
def calls (limits : ListLimits) (cs : List Call) : ListIndex := cs.foldl (call limits) empty

/-- A list passes the check. -/
def Call.IsAcceptable (limits : ListLimits) : Call → Prop
  | .receive id references _ => check limits id references = .ok ()
  | .markDownloaded _ => True

instance (limits : ListLimits) : DecidablePred (Call.IsAcceptable limits)
  | .receive id references _ =>
    inferInstanceAs (Decidable (check limits id references = .ok ()))
  | .markDownloaded _ => isTrue trivial

/-- The references and the date that a call brings for a list. -/
def Call.content? (k : ListId) : Call → Option (List Announcement × Timestamp)
  | .receive id references received => if id = k then some (references, received) else none
  | .markDownloaded _ => none

/-- What came first for a list. -/
def firstContent? (k : ListId) (cs : List Call) : Option (List Announcement × Timestamp) :=
  cs.findSome? (Call.content? k)

theorem Call.content?_eq_some {c : Call} {content : List Announcement × Timestamp} :
    c.content? k = some content ↔ c = .receive k content.1 content.2 := by
  cases c with
  | receive id references received =>
    rw [content?, Option.ite_none_right_eq_some, Option.some.injEq, Call.receive.injEq,
      Prod.ext_iff]
  | markDownloaded id => simp [content?]

/-! ## What the calls leave -/

/-- A list as it is kept: one reference to each message, flagged if the message was downloaded. -/
def filed (downloaded : IdSet) (k : ListId) (content : List Announcement × Timestamp) :
    MessageList where
  id := k
  received := content.2
  references := (firstMentions ∅ content.1).map fun r =>
    { r with downloaded := downloaded.contains r.message }

theorem flag_filed (downloaded : IdSet) (x : MessageId) (k : ListId)
    (content : List Announcement × Timestamp) :
    flag x (filed downloaded k content) = filed (downloaded.insert x) k content := by
  have hflags (r : Announcement) : marked x { r with downloaded := downloaded.contains r.message } =
      { r with downloaded := (downloaded.insert x).contains r.message } := by
    rw [marked]
    by_cases hr : r.message = x
    · simp [hr]
    · simp [hr, Ne.symm hr]
  rw [flag, filed, filed, List.map_map]
  exact congrArg (fun references => { id := k, received := content.2, references : MessageList })
    (List.map_congr_left fun r _ => hflags r)

theorem announces_filed (downloaded : IdSet) (k : ListId)
    (content : List Announcement × Timestamp) (x : MessageId) :
    (filed downloaded k content).announces x = true ↔ ∃ r ∈ content.1, r.message = x := by
  have hmessages : (filed downloaded k content).references.map (·.message) = named content.1 := by
    rw [filed, named, List.map_map]
    rfl
  rw [MessageList.announces_iff, ← List.mem_map, hmessages, mem_named]

/-- An index holds what came first for each list, flagged by the downloads on record, which are those
that it was told of. -/
structure Reflects (cs : List Call) (ix : ListIndex) : Prop where
  sound : ix.Sound
  lists : ∀ (k : ListId), ix.lists[k]? = (firstContent? k cs).map (filed ix.downloaded k)
  downloaded : ∀ x, x ∈ ix.downloaded ↔ Call.markDownloaded x ∈ cs

namespace Reflects

variable {cs : List Call}

theorem empty : Reflects [] ListIndex.empty :=
  ⟨sound_empty, fun _ => by simp [ListIndex.empty, firstContent?], by simp [ListIndex.empty]⟩

theorem mem_lists_iff (h : Reflects cs ix) : k ∈ ix.lists ↔ firstContent? k cs ≠ none := by
  rw [Std.ExtTreeMap.mem_iff_isSome_getElem?, h.lists, Option.isSome_map, Option.isSome_iff_ne_none]

theorem receive (h : Reflects cs ix) {references : List Announcement}
    (hcheck : check limits id references = .ok ()) (received : Timestamp) :
    Reflects (cs ++ [.receive id references received])
      (ix.call limits (.receive id references received)) := by
  have hfirst (k : ListId) : firstContent? k (cs ++ [.receive id references received]) =
      (firstContent? k cs).or (if id = k then some (references, received) else none) := by
    rw [firstContent?, List.findSome?_append, List.findSome?_singleton]
    rfl
  have hdownloaded (x : MessageId) : Call.markDownloaded x ∈
      cs ++ [.receive id references received] ↔ Call.markDownloaded x ∈ cs := by simp
  by_cases hknown : id ∈ ix.lists
  · -- What came before for this list stays.
    have heq : ix.call limits (.receive id references received) = ix := by
      rw [call, ListIndex.receive, if_pos (Std.ExtTreeMap.mem_iff_contains.1 hknown)]
    rw [heq]
    refine ⟨h.sound, fun k => ?_, fun x => by rw [h.downloaded, hdownloaded]⟩
    rw [h.lists, hfirst]
    split
    · next hk =>
      obtain ⟨content, hcontent⟩ := Option.ne_none_iff_exists'.1 (h.mem_lists_iff.1 hknown)
      rw [← hk, hcontent, Option.some_or]
    · rw [Option.or_none]
  · have hr := receive_of_fresh hknown hcheck received
    rw [call, hr]
    refine ⟨h.sound.receive hr, fun k => ?_, fun x => by rw [hdownloaded]; exact h.downloaded x⟩
    rw [Std.ExtTreeMap.getElem?_insert, hfirst]
    simp only [Std.LawfulEqOrd.compare_eq_iff_eq]
    split
    · next hk =>
      have hnone := Classical.not_not.1 (mt h.mem_lists_iff.2 hknown)
      rw [← hk, hnone, Option.none_or]
      rfl
    · rw [h.lists, Option.or_none]

theorem markDownloaded (h : Reflects cs ix) (x : MessageId) :
    Reflects (cs ++ [.markDownloaded x]) (ix.call limits (.markDownloaded x)) := by
  refine ⟨h.sound.markDownloaded x, fun k => ?_, fun y => ?_⟩
  · have hfirst : firstContent? k (cs ++ [.markDownloaded x]) = firstContent? k cs := by
      rw [firstContent?, List.findSome?_append, List.findSome?_singleton]
      exact Option.or_none
    rw [call, h.sound.lists_markDownloaded, h.lists, hfirst, downloaded_markDownloaded,
      Option.map_map]
    exact congrArg (Option.map · _) (funext fun content => flag_filed ix.downloaded x k content)
  · rw [call, mem_downloaded_markDownloaded, h.downloaded]
    simp [or_comm]

theorem calls (h : Reflects cs ix) {cs' : List Call} (hcs : ∀ c ∈ cs', c.IsAcceptable limits) :
    Reflects (cs ++ cs') (cs'.foldl (call limits) ix) := by
  induction cs' generalizing cs ix with
  | nil => rwa [List.append_nil]
  | cons c rest ih =>
    obtain ⟨hc, hrest⟩ := List.forall_mem_cons.1 hcs
    have hstep : Reflects (cs ++ [c]) (ix.call limits c) := by
      cases c with
      | receive id references received => exact h.receive hc received
      | markDownloaded x => exact h.markDownloaded x
    rw [List.append_cons]
    exact ih hstep hrest

end Reflects

/-! ## Interleavings -/

/-- Lists that arrive, each with one content and date, and messages that are downloaded. -/
structure Deliveries where
  lists : ListMap (List Announcement × Timestamp)
  downloads : IdSet

namespace Deliveries

variable {d : Deliveries} {cs : List Call}

/-- The calls that bring the deliveries. -/
def calls (d : Deliveries) : List Call :=
  (d.lists.toList.map fun (id, references, received) => .receive id references received) ++
    d.downloads.toList.map .markDownloaded

/-- All lists pass the check. -/
def AreAcceptable (d : Deliveries) (limits : ListLimits) : Prop :=
  ∀ c ∈ d.calls, c.IsAcceptable limits

/-- The calls bring the deliveries, each at least once, in any order. -/
def Interleaves (d : Deliveries) (cs : List Call) : Prop := ∀ c, c ∈ cs ↔ c ∈ d.calls

theorem mem_calls_receive {references : List Announcement} {received : Timestamp} :
    .receive id references received ∈ d.calls ↔ d.lists[id]? = some (references, received) := by
  simp [calls, Std.ExtTreeMap.mem_toList_iff_getElem?_eq_some]

theorem mem_calls_markDownloaded : .markDownloaded x ∈ d.calls ↔ x ∈ d.downloads := by
  simp [calls]

theorem Interleaves.firstContent? (h : d.Interleaves cs) (k : ListId) :
    firstContent? k cs = d.lists[k]? := by
  have hmem {content : List Announcement × Timestamp} :
      Call.receive k content.1 content.2 ∈ cs ↔ d.lists[k]? = some content := by
    rw [h, mem_calls_receive]
  cases hfirst : ListIndex.firstContent? k cs with
  | some content =>
    obtain ⟨c, hc, hcontent⟩ := List.exists_of_findSome?_eq_some hfirst
    rw [Call.content?_eq_some.1 hcontent, hmem] at hc
    exact hc.symm
  | none =>
    refine (Option.eq_none_iff_forall_ne_some.2 fun content hcontent => ?_).symm
    have hnone := List.findSome?_eq_none_iff.1 hfirst _ (hmem.2 hcontent)
    rw [Call.content?_eq_some.2 rfl] at hnone
    cases hnone

end Deliveries

/-- Any two interleavings of deliveries end in the same index. It has the lists as they were received,
flagged by the downloads. To be fetched is one reference to each message that is announced and not
downloaded, by date and then by id, and no reference to the message is kept that is announced
earlier. -/
theorem calls_interleaved {d : Deliveries} {cs : List Call} (hd : d.AreAcceptable limits)
    (hcs : d.Interleaves cs) :
    let ix := calls limits cs
    (∀ cs', d.Interleaves cs' → calls limits cs' = ix) ∧
    (∀ (k : ListId), ix.lists[k]? = d.lists[k]?.map (filed d.downloads k)) ∧
    (∀ x, x ∈ ix.toFetch.map (·.message) ↔
      (∃ (k : ListId) (content : List Announcement × Timestamp), d.lists[k]? = some content ∧
        ∃ r ∈ content.1, r.message = x) ∧ x ∉ d.downloads) ∧
    (ix.toFetch.map (·.message)).Nodup ∧
    (∀ r ∈ ix.toFetch, ix.Keeps r ∧
      ∀ r', ix.Keeps r' → r'.message = r.message → r.announced ≤ r'.announced) ∧
    ix.toFetch.Pairwise fun a b => a.announced < b.announced ∨
      (a.announced = b.announced ∧ compare a.message b.message = .lt) := by
  intro ix
  have hreflects {cs : List Call} (hcs : d.Interleaves cs) : Reflects cs (calls limits cs) :=
    Reflects.empty.calls fun c hc => hd c ((hcs c).1 hc)
  have hdownloaded {cs : List Call} (hcs : d.Interleaves cs) :
      (calls limits cs).downloaded = d.downloads := by
    refine Std.ExtTreeSet.ext_mem fun x => ?_
    rw [(hreflects hcs).downloaded, hcs, Deliveries.mem_calls_markDownloaded]
  have hlists {cs : List Call} (hcs : d.Interleaves cs) (k : ListId) :
      (calls limits cs).lists[k]? = d.lists[k]?.map (filed d.downloads k) := by
    rw [(hreflects hcs).lists, hcs.firstContent?, hdownloaded hcs]
  have hsound : ix.Sound := (hreflects hcs).sound
  refine ⟨fun cs' hcs' => ?_, hlists hcs, fun x => ?_, ix.nodup_toFetch,
    fun r hr => hsound.earliest_of_mem_toFetch hr, ix.pairwise_toFetch⟩
  · refine (hreflects hcs').sound.ext hsound (Std.ExtTreeMap.ext_getElem? fun k => ?_) ?_
    · rw [hlists hcs', hlists hcs]
    · rw [hdownloaded hcs', hdownloaded hcs]
  · rw [mem_toFetch, hsound.wants_iff, hdownloaded hcs]
    refine and_congr_left' (exists_congr fun k => ?_)
    rw [hlists hcs]
    simp only [Option.map_eq_some_iff, exists_exists_and_eq_and]
    exact exists_congr fun content => and_congr_right' (announces_filed d.downloads k content x)

/-- Two lists name one message, the first of them twice, and the other message that it names was
downloaded. The first mention in each list counts, so the later list has the earliest announcement. -/
theorem two_lists_interleaved :
    let author : IdentityId := ⟨.ofNat 256 7⟩
    let reference (token : Nat) (announced : Timestamp) : Announcement :=
      { message := ⟨author, ⟨.ofNat 128 token⟩⟩, board := ⟨"lists", by decide⟩, announced,
        hint := "", downloaded := false }
    let contents : List (ListId × List Announcement × Timestamp) :=
      [(⟨author, 0⟩, [reference 1 5, reference 2 4, reference 1 1], 9),
        (⟨author, 1⟩, [reference 1 3], 8)]
    let d : Deliveries := { lists := .ofList contents, downloads := {(reference 2 4).message} }
    let later : List Call := d.calls.reverse ++ d.calls
    d.AreAcceptable {} ∧ d.Interleaves d.calls ∧ d.Interleaves later ∧
      calls {} later = calls {} d.calls ∧ (calls {} d.calls).toFetch = [reference 1 3] := by
  intro author reference contents d later
  have hd : d.AreAcceptable {} := by
    rw [Deliveries.AreAcceptable]
    decide +kernel
  have hcalls : d.Interleaves d.calls := fun _ => Iff.rfl
  have hlater : d.Interleaves later := fun c => by simp [later]
  exact ⟨hd, hcalls, hlater, (calls_interleaved hd hcalls).1 later hlater, by decide +kernel⟩

end ListIndex

end Noticeboard
