import Noticeboard.Proofs.ThreadTree.Knit

/-!
# Ghosts that are vouched for

`Knit` says of every slot of a tree what hangs there. `Vouched` says it of the ghosts alone: each holds
some replies, and these say that they hang there. A reply that names itself as its parent may end up
among its own children while it says that it hangs under the root, so that its tree is not knit; its
ghosts are vouched for all the same, since the slot of a reply is no ghost.
-/

namespace Noticeboard

namespace ThreadTree

variable {t t' : ThreadTree} {loose loose' : Set MessageId} {id c p q : MessageId} {l : Link}
  {r : Reply} {d : Timestamp} {gh gh' : Ghost}

/-- Every ghost holds replies, all of which say that they hang there. No `loose` reply is among them. -/
structure Vouched (t : ThreadTree) (loose : Set MessageId) : Prop where
  held : ∀ (q : MessageId) (gh : Ghost), t.nodes[q]? = some (.ghost gh) → ∃ c, c ∈ gh.children
  names : ∀ (q : MessageId) (gh : Ghost), t.nodes[q]? = some (.ghost gh) → ∀ c ∈ gh.children,
    c ∉ loose ∧ t.linkOf? c = some (.node q)

namespace Vouched

theorem mono (h : t.Vouched loose) (hsub : loose' ⊆ loose) : t.Vouched loose' :=
  ⟨h.held, fun q gh hq c hc => ⟨fun hl => (h.names q gh hq c hc).1 (hsub hl), (h.names q gh hq c hc).2⟩⟩

/-- Nothing happens to the ghosts that stay, nor to the replies under them. -/
theorem of_sub (h : t.Vouched loose)
    (hghosts : ∀ (q : MessageId) (gh : Ghost), t'.nodes[q]? = some (.ghost gh) →
      t.nodes[q]? = some (.ghost gh))
    (hlinks : ∀ (q : MessageId) (gh : Ghost), t'.nodes[q]? = some (.ghost gh) → ∀ c, c ∉ loose →
      t.linkOf? c = some (.node q) → c ∉ loose' ∧ t'.linkOf? c = some (.node q)) :
    t'.Vouched loose' := by
  refine ⟨fun q gh hq => h.held q gh (hghosts q gh hq), fun q gh hq c hc => ?_⟩
  obtain ⟨hloose, hlink⟩ := h.names q gh (hghosts q gh hq) c hc
  exact hlinks q gh hq c hloose hlink

/-- The state of the root does not matter. -/
theorem setRoot (h : t.Vouched loose) (root : Root) : { t with root }.Vouched loose :=
  h.of_sub (fun _ _ hq => hq) fun _ _ _ _ hl hc => ⟨hl, hc⟩

end Vouched

theorem vouched_of_isEmpty (h : t.isEmpty = true) (loose : Set MessageId) : t.Vouched loose := by
  have hnone (q : MessageId) : t.nodes[q]? = none := by
    rw [Std.ExtTreeMap.isEmpty_iff.1 h, Std.ExtTreeMap.getElem?_empty]
  constructor
  all_goals
    intro q gh hq
    cases (hnone q).symm.trans hq

/-! ## Detaching -/

/-- A ghost that is left when a reply was detached lost that reply or nothing, but has others. -/
theorem ghost_of_removeChild (hheld : ∀ gh, t.nodes[q]? = some (.ghost gh) → ∃ c, c ∈ gh.children)
    (h : (t.removeChild c p).1.nodes[q]? = some (.ghost gh')) :
    (∃ x, x ∈ gh'.children) ∧ ∃ gh, t.nodes[q]? = some (.ghost gh) ∧
      ∀ x ∈ gh'.children, x ∈ gh.children ∧ (q = p → x ≠ c) := by
  rw [removeChild] at h
  split at h
  · next r hp =>
    rw [Std.ExtTreeMap.getElem?_insert] at h
    split at h
    · cases h
    · next hne => exact ⟨hheld gh' h, gh', h, fun x hx => ⟨hx, by grind⟩⟩
  · next gh hp =>
    dsimp only at h
    split at h
    · rw [Std.ExtTreeMap.getElem?_erase] at h
      split at h
      · cases h
      · next hne => exact ⟨hheld gh' h, gh', h, fun x hx => ⟨hx, by grind⟩⟩
    · next hkept =>
      rw [Std.ExtTreeMap.getElem?_insert] at h
      split at h
      · next he =>
        cases h
        obtain rfl := Std.LawfulEqOrd.eq_of_compare he
        exact ⟨exists_mem_of_not_isEmpty hkept, gh, hp, by grind⟩
      · next hne => exact ⟨hheld gh' h, gh', h, fun x hx => ⟨hx, by grind⟩⟩
  · next hp => exact ⟨hheld gh' h, gh', h, fun x hx => ⟨hx, by grind⟩⟩

/-- Detaching a reply from where it says that it hangs makes it loose. -/
theorem Vouched.unlink (h : t.Vouched loose) (hc : t.linkOf? c = some l) :
    (t.unlink c l).1.Vouched (insert c loose) := by
  have hlink := linkOf?_congr (bare?_unlink t c l)
  cases l with
  | root =>
    refine h.of_sub (fun _ _ hq => hq) fun q gh _ x hx hxq => ⟨?_, hlink ▸ hxq⟩
    rintro (rfl | hl)
    · cases hc.symm.trans hxq
    · exact hx hl
  | node p =>
    have hleft {q : MessageId} {gh' : Ghost}
        (hq : (t.removeChild c p).1.nodes[q]? = some (.ghost gh')) :=
      ghost_of_removeChild (h.held q) hq
    refine ⟨fun q gh' hq => (hleft hq).1, fun q gh' hq x hx => ?_⟩
    obtain ⟨-, gh, hgh, hsub⟩ := hleft hq
    obtain ⟨hold, hne⟩ := hsub x hx
    obtain ⟨hloose, hxq⟩ := h.names q gh hgh x hold
    refine ⟨?_, hlink ▸ hxq⟩
    rintro (rfl | hl)
    · cases hc.symm.trans hxq
      exact hne rfl rfl
    · exact hloose hl

/-! ## Attaching -/

theorem Vouched.setParent (h : t.Vouched loose) (hc : c ∈ loose) (l : Link) :
    (t.setParent c l).Vouched loose := by
  rcases t.setParent_eq c l with heq | ⟨r, hr, heq⟩
  · rwa [heq]
  · refine h.of_sub (fun q gh hq => ?_) fun q gh _ x hx hxq => ⟨hx, ?_⟩
    · rw [heq, Std.ExtTreeMap.getElem?_insert] at hq
      split at hq
      · cases hq
      · exact hq
    · have hne : c ≠ x := fun he => hx (he ▸ hc)
      rwa [linkOf?, bare?_setParent, if_neg hne]

/-- A ghost that is there when a child was added had its other children before. -/
theorem ghost_of_addChild (h : (t.addChild c d p).1.nodes[q]? = some (.ghost gh')) :
    t.nodes[q]? = some (.ghost gh') ∨ (q = p ∧ c ∈ gh'.children ∧ ∀ x ∈ gh'.children,
      x = c ∨ ∃ gh, t.nodes[q]? = some (.ghost gh) ∧ x ∈ gh.children) := by
  rw [addChild] at h
  split at h
  · next r hp =>
    rw [Std.ExtTreeMap.getElem?_insert] at h
    split at h
    · cases h
    · exact .inl h
  · next gh hp =>
    rw [Std.ExtTreeMap.getElem?_insert] at h
    split at h
    · next he =>
      cases h
      obtain rfl := Std.LawfulEqOrd.eq_of_compare he
      refine .inr ⟨rfl, Std.ExtTreeSet.mem_insert_self, fun x hx => ?_⟩
      refine (Std.ExtTreeSet.mem_insert.1 hx).imp (fun he => ?_) fun hx => ⟨gh, hp, hx⟩
      exact (Std.LawfulEqOrd.eq_of_compare he).symm
    · exact .inl h
  · next hp =>
    rw [Std.ExtTreeMap.getElem?_insert] at h
    split at h
    · next he =>
      cases h
      obtain rfl := Std.LawfulEqOrd.eq_of_compare he
      exact .inr ⟨rfl, by simp, fun x hx => .inl (by simpa [@eq_comm _ c] using hx)⟩
    · exact .inl h

/-- A child that says so hangs under its parent and is loose no longer. -/
theorem Vouched.addChild (h : t.Vouched loose) (hc : t.linkOf? c = some (.node p))
    (d : Timestamp) : (t.addChild c d p).1.Vouched (loose \ {c}) := by
  have hlink := linkOf?_congr (bare?_addChild t c d p)
  refine ⟨fun q gh' hq => ?_, fun q gh' hq x hx => ?_⟩
  · rcases ghost_of_addChild hq with hq | ⟨-, hc, -⟩
    · exact h.held q gh' hq
    · exact ⟨c, hc⟩
  · have hold {gh : Ghost} (hq : t.nodes[q]? = some (.ghost gh)) (hx : x ∈ gh.children) :
        x ∉ loose \ {c} ∧ t.linkOf? x = some (.node q) :=
      ⟨fun hl => (h.names q gh hq x hx).1 hl.1, (h.names q gh hq x hx).2⟩
    rw [hlink]
    rcases ghost_of_addChild hq with hq | ⟨rfl, -, hsub⟩
    · exact hold hq hx
    · rcases hsub x hx with rfl | ⟨gh, hq, hx⟩
      · exact ⟨fun hl => hl.2 rfl, hc⟩
      · exact hold hq hx

/-- A reply that hangs under itself hangs under no ghost. -/
theorem Vouched.addOwnChild (h : t.Vouched loose) (hr : t.nodes[c]? = some (.reply r))
    (d : Timestamp) : (t.addChild c d c).1.Vouched loose := by
  have hlink := linkOf?_congr (bare?_addChild t c d c)
  refine h.of_sub (fun q gh hq => ?_) fun q gh _ x hx hxq => ⟨hx, hlink ▸ hxq⟩
  rw [ThreadTree.addChild, hr] at hq
  dsimp only at hq
  rw [Std.ExtTreeMap.getElem?_insert] at hq
  split at hq
  · cases hq
  · exact hq

/-- A loose reply that has a slot may be attached. Unless it hangs under another message, it may still
count as loose. -/
theorem Vouched.link (h : t.Vouched loose) (hc : c ∈ loose) (hr : t.nodes[c]? = some (.reply r))
    (d : Timestamp) (l : Link) :
    (t.link c d l).1.Vouched {x | x ∈ loose ∧ (x = c → l = .root ∨ l = .node c)} := by
  have hset := h.setParent hc l
  have hslot : (t.setParent c l).nodes[c]? = some (.reply { r with parent := l }) := by
    rw [ThreadTree.setParent, reply?, hr]
    exact Std.ExtTreeMap.getElem?_insert_self
  have hlink : (t.setParent c l).linkOf? c = some l := by
    rw [linkOf?, bare?_of_reply hslot]
    rfl
  cases l with
  | root => exact (hset.mono fun x hx => hx.1).of_sub (fun _ _ hq => hq) fun _ _ _ _ hl hx => ⟨hl, hx⟩
  | node p =>
    by_cases hp : p = c
    · subst hp
      exact (hset.addOwnChild hslot d).mono fun x hx => hx.1
    · refine (hset.addChild hlink d).mono fun x hx => ⟨hx.1, ?_⟩
      rintro rfl
      simp [hp] at hx

/-! ## New replies and departed ones -/

/-- A reply may take the slot of what is no reply. -/
theorem Vouched.insertSlot (h : t.Vouched loose) (hid : t.linkOf? id = none) (r : Reply) :
    { t with nodes := t.nodes.insert id (.reply r) }.Vouched (insert id loose) := by
  refine h.of_sub (fun q gh hq => ?_) fun q gh _ x hx hxq => ?_
  · rw [Std.ExtTreeMap.getElem?_insert] at hq
    split at hq
    · cases hq
    · exact hq
  · have hne : id ≠ x := by
      rintro rfl
      cases hid.symm.trans hxq
    refine ⟨fun hl => hl.elim (fun he => hne he.symm) hx, ?_⟩
    rwa [linkOf?, bare?_insert rfl, if_neg hne]

theorem Vouched.insertReply (h : t.Vouched loose) (hid : t.linkOf? id = none) (r : Reply) :
    (t.insertReply id r).1.Vouched
      {x | x ∈ insert id loose ∧ (x = id → r.parent = .root ∨ r.parent = .node id)} :=
  (h.insertSlot hid r).link (Set.mem_insert id loose) Std.ExtTreeMap.getElem?_insert_self r.created
    r.parent

/-- A loose reply may leave its slot. -/
theorem Vouched.eraseReply (h : t.Vouched loose) (hid : id ∈ loose) :
    { t with nodes := t.nodes.erase id }.Vouched loose := by
  refine h.of_sub (fun q gh hq => ?_) fun q gh _ x hx hxq => ⟨hx, ?_⟩
  · rw [Std.ExtTreeMap.getElem?_erase] at hq
    split at hq
    · cases hq
    · exact hq
  · have hne : id ≠ x := fun he => hx (he ▸ hid)
    rwa [linkOf?, bare?_erase rfl, if_neg hne]

end ThreadTree

end Noticeboard
