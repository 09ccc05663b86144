import Noticeboard.Proofs.State.Outgrown

/-!
# Deletions commute

Two identities may be deleted in either order (`Engine.stages_deleteIdentity_comm`). Boards, lists,
subscriptions and outbox lose what belongs to the two. A marker on a message by neither of them goes
if the message stood as a ghost before, stands as one nowhere in the end, and no list wants it
(`State.Sound.getElem?_markers_twice`): a deletion makes no new ghost of such a message, so the ghost
vanishes with the first deletion or with the second one, whichever comes first.
-/

namespace Noticeboard

/-! ## Lists -/

namespace ListIndex

variable {ix : ListIndex} {x : MessageId}

theorem Sound.removeAuthor_comm (h : ix.Sound) (a b : IdentityId) :
    ((ix.removeAuthor a).1.removeAuthor b).1 = ((ix.removeAuthor b).1.removeAuthor a).1 := by
  refine ((h.removeAuthor a).removeAuthor b).ext ((h.removeAuthor b).removeAuthor a)
    (Std.ExtTreeMap.ext_getElem? fun k => ?_) (Std.ExtTreeSet.ext_mem fun x => ?_)
  · simp only [lists_removeAuthor]
    by_cases ha : k.author = a <;> by_cases hb : k.author = b <;> simp [ha, hb]
  · simp only [mem_downloaded_removeAuthor]
    exact and_right_comm

end ListIndex

/-! ## Boards and markers -/

namespace State

variable {s : State} {a b : IdentityId} {x : MessageId} {subject : Subject} {marker : Marker}

theorem ext_fields {s s' : State} (hboards : s.boards = s'.boards) (hlists : s.lists = s'.lists)
    (hmarkers : s.markers = s'.markers) (hsubscriptions : s.subscriptions = s'.subscriptions)
    (houtbox : s.outbox = s'.outbox) (hdeleted : s.deleted = s'.deleted) : s = s' := by
  cases s
  cases s'
  simp_all

namespace Sound

theorem boards_deleteIdentity_comm (h : s.Sound) (a b : IdentityId) :
    ((s.deleteIdentity a).1.deleteIdentity b).1.boards =
      ((s.deleteIdentity b).1.deleteIdentity a).1.boards := by
  refine Std.ExtTreeMap.ext_getElem? fun name => ?_
  simp only [boards_deleteIdentity, Option.map_map]
  cases hg : s.boards[name]? with
  | none => rfl
  | some g => exact congrArg some ((board_eq hg ▸ h.coherent name).removeAuthor_comm a b)

/-- Of the markers on what neither of two identities wrote, two deletions take those on ghosts that
vanish on the whole. -/
theorem getElem?_markers_twice (h : s.Sound) :
    ((s.deleteIdentity a).1.deleteIdentity b).1.markers[subject]? = some marker ↔
      s.markers[subject]? = some marker ∧ (subject.author ≠ a ∧ subject.author ≠ b) ∧
        ∀ x, subject = .message x → ¬ ((∃ name, x ∈ (s.board name).ghostIds) ∧
          (∀ name, x ∉ (((s.deleteIdentity a).1.deleteIdentity b).1.board name).ghostIds) ∧
          ¬ s.lists.Wants x) := by
  have ha := h.deleteIdentity a
  rw [getElem?_markers_deleteIdentity, getElem?_markers_deleteIdentity, and_assoc, and_assoc,
    and_assoc]
  refine and_congr_right fun _ => and_congr_right fun hna => ?_
  rw [and_left_comm]
  refine and_congr_right fun hnb => ?_
  rw [← forall_and]
  refine forall_congr' fun x => ?_
  rw [← imp_and]
  refine imp_congr_right ?_
  rintro rfl
  rw [Outgrows, Outgrows, ha.wants_deleteIdentity_iff hnb, h.wants_deleteIdentity_iff hna, ← not_or,
    not_iff_not]
  constructor
  · rintro (⟨hbefore, hbetween, hwants⟩ | ⟨⟨name, hbetween⟩, hafter, hwants⟩)
    · exact ⟨hbefore, fun name hghost => hbetween name (ha.ghostIds_deleteIdentity hnb hghost),
        hwants⟩
    · exact ⟨⟨name, h.ghostIds_deleteIdentity hna hbetween⟩, hafter, hwants⟩
  · rintro ⟨hbefore, hafter, hwants⟩
    by_cases hbetween : ∃ name, x ∈ ((s.deleteIdentity a).1.board name).ghostIds
    · exact .inr ⟨hbetween, hafter, hwants⟩
    · exact .inl ⟨hbefore, not_exists.1 hbetween, hwants⟩

theorem markers_deleteIdentity_comm (h : s.Sound) (a b : IdentityId) :
    ((s.deleteIdentity a).1.deleteIdentity b).1.markers =
      ((s.deleteIdentity b).1.deleteIdentity a).1.markers := by
  refine Std.ExtTreeMap.ext_getElem? fun subject => Option.ext fun marker => ?_
  have hboard (name : BoardName) : ((s.deleteIdentity a).1.deleteIdentity b).1.board name =
      ((s.deleteIdentity b).1.deleteIdentity a).1.board name :=
    board_congr (h.boards_deleteIdentity_comm a b)
  rw [h.getElem?_markers_twice, h.getElem?_markers_twice]
  simp only [hboard, and_comm (a := subject.author ≠ a)]

/-! ## Whole states -/

theorem deleteIdentity_comm (h : s.Sound) (a b : IdentityId) :
    ((s.deleteIdentity a).1.deleteIdentity b).1 = ((s.deleteIdentity b).1.deleteIdentity a).1 := by
  refine ext_fields (h.boards_deleteIdentity_comm a b) (h.lists.removeAuthor_comm a b)
    (h.markers_deleteIdentity_comm a b) ?_ ?_ ?_
  · refine Std.ExtTreeMap.ext_getElem? fun viewer => ?_
    show ((s.subscriptions.erase a).erase b)[viewer]? = ((s.subscriptions.erase b).erase a)[viewer]?
    simp only [Std.ExtTreeMap.getElem?_erase]
    split <;> split <;> rfl
  · refine Std.ExtTreeMap.ext_getElem? fun id => ?_
    show ((s.outbox.removeAuthor a).removeAuthor b)[id]? =
      ((s.outbox.removeAuthor b).removeAuthor a)[id]?
    simp only [Outbox.removeAuthor, Std.ExtTreeMap.getElem?_filter', Option.filter_filter,
      Bool.and_comm]
  · refine Std.ExtTreeSet.ext_mem fun id => ?_
    show id ∈ (s.deleted.insert a).insert b ↔ id ∈ (s.deleted.insert b).insert a
    simp only [Std.ExtTreeSet.mem_insert]
    exact or_left_comm

end Sound

end State

namespace Engine

/-- In every state that can be reached, two identities may be deleted in either order: the engines
are the same in the end, counters included. -/
theorem stages_deleteIdentity_comm (config : EngineConfig) (trust : Trust) (now : Timestamp)
    (l : List Stage) (a b : IdentityId) :
    let e := (new config trust now).stages l
    ((e.deleteIdentity a).1.deleteIdentity b).1 = ((e.deleteIdentity b).1.deleteIdentity a).1 := by
  intro e
  have hs : e.state.Sound := sound_stages State.sound_empty l
  have hstate := hs.deleteIdentity_comm a b
  simp only [deleteIdentity, Counters.markers, hstate]

end Engine

end Noticeboard
