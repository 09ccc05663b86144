import Noticeboard.Proofs.Board.Run
import Noticeboard.Proofs.State.Schedule
import Noticeboard.Proofs.Validation

/-!
# Schedules settle

What every schedule keeps (`Settling`): a stored message has passed the check; one by a deleted
author is still to be swept by some deletion under way; one that passed the check and whose author
is not deleted is stored on each of its boards, or still to be filed there.

Once no call is under way, each board is therefore what rebuilding makes of the messages that
survive, whatever the schedule was (`schedule_settles`).
-/

namespace Noticeboard

namespace Schedule

/-! ## What calls ask for -/

/-- The messages delivered by some calls. -/
def delivered (calls : List Call) : List Message :=
  calls.filterMap fun
    | .receive m _ => some m
    | .delete _ => none

/-- An id always stands for the same message. -/
def Consistent (calls : List Call) : Prop :=
  ∀ m ∈ delivered calls, ∀ m' ∈ delivered calls, m.id = m'.id → m = m'

instance (calls : List Call) : Decidable (Consistent calls) :=
  inferInstanceAs (Decidable (∀ m ∈ delivered calls, ∀ m' ∈ delivered calls, _))

/-- The messages delivered by calls that pass the check. -/
def passed (limits : Limits) (calls : List Call) : List Message :=
  calls.filterMap fun
    | .receive m announcedBy => if (m.validate announcedBy limits).isOk then some m else none
    | .delete _ => none

/-- The messages of a board that pass the check and whose authors are not deleted. -/
def survivors (limits : Limits) (calls : List Call) (b : BoardName) : List Message :=
  (passed limits calls).filter fun m => m.targets b && decide (.delete m.author ∉ calls)

section

variable {limits : Limits} {calls calls' : List Call} {c c' : Config} {m : Message} {b : BoardName}
  {name : BoardName} {rest : List BoardName} {identity : IdentityId} {boards : BoardMap Board}
  {deleted : Std.ExtTreeSet IdentityId} {before after : List Task} {task : Task} {g g' : Board}

theorem mem_passed : m ∈ passed limits calls ↔
    ∃ announcedBy, .receive m announcedBy ∈ calls ∧ m.validate announcedBy limits = .ok () := by
  have hok (announcedBy : Option IdentityId) : (m.validate announcedBy limits).isOk = true ↔
      m.validate announcedBy limits = .ok () := by
    cases m.validate announcedBy limits <;> simp [Except.isOk, Except.toBool]
  rw [passed, List.mem_filterMap]
  constructor
  · rintro ⟨call, hcall, hm⟩
    cases call with
    | receive x announcedBy =>
      simp only [Option.ite_none_right_eq_some, Option.some.injEq] at hm
      obtain ⟨hvalid, rfl⟩ := hm
      exact ⟨announcedBy, hcall, (hok announcedBy).1 hvalid⟩
    | delete identity => cases hm
  · rintro ⟨announcedBy, hcall, hvalid⟩
    exact ⟨_, hcall, by simp [(hok announcedBy).2 hvalid]⟩

theorem mem_delivered_of_mem_passed (h : m ∈ passed limits calls) : m ∈ delivered calls := by
  obtain ⟨announcedBy, hcall, -⟩ := mem_passed.1 h
  exact List.mem_filterMap.2 ⟨_, hcall, rfl⟩

theorem mem_survivors : m ∈ survivors limits calls b ↔
    m ∈ passed limits calls ∧ m.targets b = true ∧ .delete m.author ∉ calls := by
  simp [survivors]

/-! ## The invariant -/

/-- What a task may count on. -/
def Task.Sound (limits : Limits) (calls : List Call) (deleted : Std.ExtTreeSet IdentityId) :
    Task → Prop
  | file m rest => m ∈ passed limits calls ∧ ∀ b ∈ rest, m.targets b = true
  | enter m name rest =>
    m ∈ passed limits calls ∧ m.targets name = true ∧ ∀ b ∈ rest, m.targets b = true
  | list identity => identity ∈ deleted
  | sweep identity _ => identity ∈ deleted

/-- The task is going to file the message on the board. -/
def Task.Files (m : Message) (b : BoardName) : Task → Prop
  | file m' rest => m' = m ∧ b ∈ rest
  | enter m' name rest => m' = m ∧ (b = name ∨ b ∈ rest)
  | _ => False

/-- The task is going to sweep the identity off the board. -/
def Task.Sweeps (identity : IdentityId) (b : BoardName) : Task → Prop
  | list identity' => identity' = identity
  | sweep identity' rest => identity' = identity ∧ b ∈ rest
  | _ => False

/-- The message that a task files. -/
def Task.message? : Task → Option Message
  | file m _ => some m
  | enter m _ _ => some m
  | _ => none

/-- What holds of every tracked board. -/
structure Fits (limits : Limits) (calls : List Call) (deleted : Std.ExtTreeSet IdentityId)
    (b : BoardName) (g : Board) : Prop where
  coherent : g.Coherent
  name : g.name = b
  allowed : ∀ (id : MessageId) (m : Message), g.messages[id]? = some m → m ∈ passed limits calls
  roots : ∀ k ∈ g.deletedRoots, k.author ∈ deleted

/-- What holds of every configuration that a schedule reaches. -/
structure Settling (limits : Limits) (calls : List Call) (c : Config) : Prop where
  deleted : ∀ a, a ∈ c.deleted ↔ .delete a ∈ calls
  sound : ∀ task ∈ c.tasks, task.Sound limits calls c.deleted
  fits : ∀ (b : BoardName) (g : Board), c.boards[b]? = some g → Fits limits calls c.deleted b g
  tracked : ∀ b ∈ c.boards, ∃ m ∈ passed limits calls, m.targets b = true
  swept : ∀ (b : BoardName) (g : Board) (id : MessageId) (m : Message), c.boards[b]? = some g →
    g.messages[id]? = some m → m.author ∈ c.deleted → ∃ task ∈ c.tasks, task.Sweeps m.author b
  filed : ∀ m ∈ passed limits calls, m.author ∉ c.deleted → ∀ b, m.targets b = true →
    (∃ g : Board, c.boards[b]? = some g ∧ g.messages[m.id]? = some m) ∨
      ∃ task ∈ c.tasks, task.Files m b

theorem fits_empty (limits : Limits) (calls : List Call) (deleted : Std.ExtTreeSet IdentityId)
    (b : BoardName) : Fits limits calls deleted b (.empty b) := by
  refine ⟨Board.coherent_empty b, rfl, fun id m hm => ?_, fun k hk => ?_⟩
  · simp [Board.empty] at hm
  · simp [Board.empty] at hk

/-! ## Calls begin -/

theorem mem_passed_append (h : m ∈ passed limits calls) : m ∈ passed limits (calls ++ calls') := by
  rw [passed, List.filterMap_append]
  exact List.mem_append_left _ h

theorem mem_passed_receive {x : Message} {announcedBy : Option IdentityId} :
    x ∈ passed limits (calls ++ [.receive m announcedBy]) ↔
      x ∈ passed limits calls ∨ (x = m ∧ m.validate announcedBy limits = .ok ()) := by
  simp only [mem_passed, List.mem_append, List.mem_singleton]
  grind

/-- A task may go on counting on the same things. -/
theorem Task.Sound.mono {deleted' : Std.ExtTreeSet IdentityId} (h : task.Sound limits calls deleted)
    (hcalls : ∀ m ∈ passed limits calls, m ∈ passed limits calls')
    (hdeleted : ∀ a ∈ deleted, a ∈ deleted') : task.Sound limits calls' deleted' := by
  cases task with
  | file m rest => exact ⟨hcalls m h.1, h.2⟩
  | enter m name rest => exact ⟨hcalls m h.1, h.2⟩
  | list identity => exact hdeleted identity h
  | sweep identity rest => exact hdeleted identity h

theorem Fits.mono {deleted' : Std.ExtTreeSet IdentityId} (h : Fits limits calls deleted b g)
    (hcalls : ∀ m ∈ passed limits calls, m ∈ passed limits calls')
    (hdeleted : ∀ a ∈ deleted, a ∈ deleted') : Fits limits calls' deleted' b g :=
  ⟨h.coherent, h.name, fun id m hm => hcalls m (h.allowed id m hm),
    fun k hk => hdeleted k.author (h.roots k hk)⟩

theorem settling_initial (limits : Limits) : Settling limits [] .initial where
  deleted := by simp [Config.initial]
  sound := by simp [Config.initial]
  fits := by simp [Config.initial]
  tracked := by simp [Config.initial]
  swept := by simp [Config.initial]
  filed := by simp [passed]

/-- More calls and a task for what they ask for. -/
theorem Settling.grow {deleted' : Std.ExtTreeSet IdentityId} (h : Settling limits calls c)
    (tasks : List Task) (hcalls : ∀ m ∈ passed limits calls, m ∈ passed limits calls')
    (hkept : ∀ a ∈ c.deleted, a ∈ deleted') (hdeleted : ∀ a, a ∈ deleted' ↔ .delete a ∈ calls')
    (hsound : ∀ task ∈ tasks, task.Sound limits calls' deleted')
    (hswept : ∀ a ∈ deleted', a ∈ c.deleted ∨ ∀ b, ∃ task ∈ tasks, task.Sweeps a b)
    (hfiled : ∀ m ∈ passed limits calls', m ∈ passed limits calls ∨ m.author ∈ deleted' ∨
      ∀ b, m.targets b = true → ∃ task ∈ tasks, task.Files m b) :
    Settling limits calls' ⟨c.boards, deleted', c.tasks ++ tasks⟩ := by
  refine ⟨hdeleted, fun task htask => ?_, fun b g hg => (h.fits b g hg).mono hcalls hkept,
    fun b hb => ?_, fun b g id m hg hm ha => ?_, fun m hm ha b hb => ?_⟩
  · rcases List.mem_append.1 htask with htask | htask
    · exact (h.sound task htask).mono hcalls hkept
    · exact hsound task htask
  · obtain ⟨m, hm, hb⟩ := h.tracked b hb
    exact ⟨m, hcalls m hm, hb⟩
  · rcases hswept m.author ha with hold | hnew
    · obtain ⟨task, htask, hsweeps⟩ := h.swept b g id m hg hm hold
      exact ⟨task, List.mem_append_left _ htask, hsweeps⟩
    · obtain ⟨task, htask, hsweeps⟩ := hnew b
      exact ⟨task, List.mem_append_right _ htask, hsweeps⟩
  · rcases hfiled m hm with hold | hgone | hnew
    · rcases h.filed m hold (fun hc => ha (hkept _ hc)) b hb with hstored | ⟨task, htask, hfiles⟩
      · exact .inl hstored
      · exact .inr ⟨task, List.mem_append_left _ htask, hfiles⟩
    · exact absurd hgone ha
    · obtain ⟨task, htask, hfiles⟩ := hnew b hb
      exact .inr ⟨task, List.mem_append_right _ htask, hfiles⟩

theorem Settling.begin_delete (h : Settling limits calls c) (identity : IdentityId) :
    Settling limits (calls ++ [.delete identity]) (c.begin limits (.delete identity)) := by
  refine h.grow [_] (fun m => mem_passed_append) (fun a ha => ?_) (fun a => ?_) ?_
    (fun a ha => ?_) fun m hm => .inl ?_
  · exact Std.ExtTreeSet.mem_insert.2 (.inr ha)
  · simp [h.deleted, or_comm, @eq_comm _ identity]
  · simp [Task.Sound]
  · rcases Std.ExtTreeSet.mem_insert.1 ha with he | ha
    · exact .inr fun b => ⟨_, List.mem_singleton_self _, Std.LawfulEqOrd.compare_eq_iff_eq.1 he⟩
    · exact .inl ha
  · simpa [passed] using hm

theorem Settling.begin_receive (h : Settling limits calls c) (m : Message)
    (announcedBy : Option IdentityId) :
    Settling limits (calls ++ [.receive m announcedBy])
      (c.begin limits (.receive m announcedBy)) := by
  have hdeleted (a : IdentityId) :
      a ∈ c.deleted ↔ .delete a ∈ calls ++ [.receive m announcedBy] := by
    simp [h.deleted]
  -- A message that is refused need not be filed: it has not passed, or its author is deleted.
  have hrefused (hm : m.author ∈ c.deleted ∨ m.validate announcedBy limits ≠ .ok ()) :
      Settling limits (calls ++ [.receive m announcedBy]) c := by
    have hgrown := h.grow [] (fun m => mem_passed_append) (fun a ha => ha) hdeleted (by simp)
      (fun a ha => .inl ha) fun x hx => ?_
    · simpa using hgrown
    · rcases mem_passed_receive.1 hx with hx | ⟨rfl, hvalid⟩
      · exact .inl hx
      · exact .inr (.inl (hm.resolve_right (not_not_intro hvalid)))
  rw [Config.begin]
  split
  · next hauthor => exact hrefused (.inl (Std.ExtTreeSet.mem_iff_contains.2 hauthor))
  · next hauthor =>
    cases hvalid : m.validate announcedBy limits with
    | error e => exact hrefused (.inr (by simp [hvalid]))
    | ok u =>
      refine h.grow [_] (fun m => mem_passed_append) (fun a ha => ha) hdeleted ?_
        (fun a ha => .inl ha) fun x hx => ?_
      · have hm : m ∈ passed limits (calls ++ [.receive m announcedBy]) :=
          mem_passed_receive.2 (.inr ⟨rfl, hvalid⟩)
        simp [Task.Sound, hm, Message.targets]
      · rcases mem_passed_receive.1 hx with hx | ⟨rfl, -⟩
        · exact .inl hx
        · refine .inr (.inr fun b hb => ⟨_, List.mem_singleton_self _, rfl, ?_⟩)
          simpa [Message.targets] using hb

/-! ## Tasks advance -/

/-- A task turns into what is left of it, which still does all that has to be done. -/
theorem Settling.replace_task {o : Option Task}
    (h : Settling limits calls ⟨boards, deleted, before ++ task :: after⟩)
    (hsound : ∀ left ∈ o, left.Sound limits calls deleted)
    (hswept : ∀ (b : BoardName) (g : Board) (id : MessageId) (m : Message), boards[b]? = some g →
      g.messages[id]? = some m → m.author ∈ deleted → task.Sweeps m.author b →
        ∃ left ∈ o, left.Sweeps m.author b)
    (hfiled : ∀ m ∈ passed limits calls, m.author ∉ deleted → ∀ b, task.Files m b →
      (∃ g : Board, boards[b]? = some g ∧ g.messages[m.id]? = some m) ∨
        ∃ left ∈ o, left.Files m b) :
    Settling limits calls ⟨boards, deleted, before ++ o.toList ++ after⟩ := by
  have hmem (x : Task) : x ∈ before ++ task :: after ↔ x = task ∨ x ∈ before ∨ x ∈ after := by
    simp only [List.mem_append, List.mem_cons]
    tauto
  have hmem' (x : Task) : x ∈ before ++ o.toList ++ after ↔ x ∈ o ∨ x ∈ before ∨ x ∈ after := by
    simp only [List.mem_append, Option.mem_toList]
    tauto
  refine ⟨h.deleted, fun x hx => ?_, h.fits, h.tracked, fun b g id m hg hm ha => ?_,
    fun m hm ha b hb => ?_⟩
  · rcases (hmem' x).1 hx with hx | hx
    · exact hsound x hx
    · exact h.sound x ((hmem x).2 (.inr hx))
  · obtain ⟨x, hx, hsweeps⟩ := h.swept b g id m hg hm ha
    rcases (hmem x).1 hx with rfl | hx
    · obtain ⟨left, hleft, hsweeps⟩ := hswept b g id m hg hm ha hsweeps
      exact ⟨left, (hmem' left).2 (.inl hleft), hsweeps⟩
    · exact ⟨x, (hmem' x).2 (.inr hx), hsweeps⟩
  · rcases h.filed m hm ha b hb with hstored | ⟨x, hx, hfiles⟩
    · exact .inl hstored
    · rcases (hmem x).1 hx with rfl | hx
      · rcases hfiled m hm ha b hfiles with hstored | ⟨left, hleft, hfiles⟩
        · exact .inl hstored
        · exact .inr ⟨left, (hmem' left).2 (.inl hleft), hfiles⟩
      · exact .inr ⟨x, (hmem' x).2 (.inr hx), hfiles⟩

/-- A board is tracked, or changes: it gains no message by a deleted author, and loses none by
another. -/
theorem Settling.set_board {tasks : List Task} (h : Settling limits calls ⟨boards, deleted, tasks⟩)
    (hfits : Fits limits calls deleted name g') (hm : m ∈ passed limits calls)
    (htargets : m.targets name = true)
    (hgained : ∀ (id : MessageId) (x : Message), g'.messages[id]? = some x → x.author ∈ deleted →
      (boards[name]?.getD (.empty name)).messages[id]? = some x)
    (hkept : ∀ (id : MessageId) (x : Message),
      (boards[name]?.getD (.empty name)).messages[id]? = some x → x.author ∉ deleted →
        g'.messages[id]? = some x) :
    Settling limits calls ⟨boards.insert name g', deleted, tasks⟩ := by
  have hself : (boards.insert name g')[name]? = some g' := Std.ExtTreeMap.getElem?_insert_self
  have hother {b : BoardName} (hb : b ≠ name) : (boards.insert name g')[b]? = boards[b]? := by
    simp [Std.ExtTreeMap.getElem?_insert, hb.symm]
  refine ⟨h.deleted, h.sound, fun b g hg => ?_, fun b hb => ?_, fun b g id x hg hx ha => ?_,
    fun x hx ha b hb => ?_⟩
  · by_cases hb : b = name
    · subst hb
      obtain rfl := Option.some.inj (hself.symm.trans hg)
      exact hfits
    · exact h.fits b g (hother hb ▸ hg)
  · by_cases he : b = name
    · exact ⟨m, hm, he ▸ htargets⟩
    · exact h.tracked b (by simpa [Std.ExtTreeMap.mem_insert, Ne.symm he] using hb)
  · by_cases hb : b = name
    · subst hb
      obtain rfl := Option.some.inj (hself.symm.trans hg)
      have hold := hgained id x hx ha
      cases hboard : boards[b]? with
      | none => simp [hboard, Board.empty] at hold
      | some g =>
        rw [hboard, Option.getD_some] at hold
        exact h.swept b g id x hboard hold ha
    · exact h.swept b g id x (hother hb ▸ hg) hx ha
  · rcases h.filed x hx ha b hb with ⟨g, hg, hstored⟩ | hfiles
    · by_cases hb : b = name
      · subst hb
        have hg : boards[b]? = some g := hg
        exact .inl ⟨g', hself, hkept x.id x (by rwa [hg, Option.getD_some]) ha⟩
      · exact .inl ⟨g, (hother hb).trans hg, hstored⟩
    · exact .inr hfiles

/-- What a task finds under the name of a board. -/
theorem Settling.fits_getD {tasks : List Task} (h : Settling limits calls ⟨boards, deleted, tasks⟩)
    (name : BoardName) : Fits limits calls deleted name (boards[name]?.getD (.empty name)) := by
  cases hg : boards[name]? with
  | none => exact fits_empty limits calls deleted name
  | some g => exact h.fits name g hg

/-- An id stands for one message on a board as well. -/
theorem Fits.messages_ingested (h : Fits limits calls deleted b g) (hone : Consistent calls)
    (hm : m ∈ passed limits calls) (htargets : m.targets b = true) {q : MessageId} {x : Message} :
    (g.ingested m).messages[q]? = some x ↔ g.messages[q]? = some x ∨ (x = m ∧ q = m.id) := by
  refine Board.messages_ingested (h.name ▸ htargets) fun y hy => ?_
  exact hone y (mem_delivered_of_mem_passed (h.allowed m.id y hy)) m
    (mem_delivered_of_mem_passed hm) (h.coherent.keyed m.id y hy)

theorem Fits.ingested (h : Fits limits calls deleted b g) (hone : Consistent calls)
    (hm : m ∈ passed limits calls) (htargets : m.targets b = true) :
    Fits limits calls deleted b (g.ingested m) := by
  obtain ⟨announcedBy, -, hvalid⟩ := mem_passed.1 hm
  refine ⟨h.coherent.ingested (Message.namesItself_of_validate hvalid),
    (Board.name_ingested g m).trans h.name, fun q x hx => ?_,
    fun k hk => h.roots k (Board.deletedRoots_ingested hk)⟩
  rcases (h.messages_ingested hone hm htargets).1 hx with hx | ⟨rfl, -⟩
  · exact h.allowed q x hx
  · exact hm

theorem Fits.removeAuthor (h : Fits limits calls deleted b g) (hidentity : identity ∈ deleted) :
    Fits limits calls deleted b (g.removeAuthor identity).1 := by
  obtain ⟨hcoherent, hname, hmessages, hroots⟩ := h.coherent.removeAuthor identity
  refine ⟨hcoherent, hname.trans h.name, fun q x hx => ?_, fun k hk => ?_⟩
  · rw [hmessages] at hx
    split at hx
    · cases hx
    · exact h.allowed q x hx
  · rcases hroots k hk with hk | rfl
    · exact h.roots k hk
    · exact hidentity

/-- A message is filed. -/
theorem Settling.enter
    (h : Settling limits calls ⟨boards, deleted, before ++ .enter m name rest :: after⟩)
    (hone : Consistent calls) :
    let advanced := (Task.enter m name rest).advance boards deleted
    Settling limits calls ⟨advanced.1, deleted, before ++ advanced.2.toList ++ after⟩ := by
  obtain ⟨hm, htargets, hrest⟩ := h.sound (.enter m name rest) (by simp)
  rw [Task.advance]
  by_cases hauthor : m.author ∈ deleted
  · rw [if_pos (Std.ExtTreeSet.mem_iff_contains.1 hauthor)]
    refine h.replace_task (by simp) (fun b g id x _ _ _ hsweeps => hsweeps.elim)
      fun x hx ha b hfiles => ?_
    exact absurd (hfiles.1 ▸ hauthor) ha
  · rw [if_neg (fun hc => hauthor (Std.ExtTreeSet.mem_iff_contains.2 hc))]
    have hfits := h.fits_getD name
    obtain ⟨r, hr⟩ := Board.exists_ingest_eq_ok (hfits.name ▸ htargets)
    have hmessages {q : MessageId} {x : Message} :=
      hfits.messages_ingested (q := q) (x := x) hone hm htargets
    have hset := h.set_board (hfits.ingested hone hm htargets) hm htargets
      (fun q x hx ha => ?_) fun q x hx _ => hmessages.2 (.inl hx)
    · simp only [hr]
      refine hset.replace_task (by simpa [Task.Sound, hm] using hrest)
        (fun b g id x _ _ _ hsweeps => hsweeps.elim) fun x _ _ b hfiles => ?_
      obtain ⟨rfl, rfl | hb⟩ := hfiles
      · exact .inl ⟨_, Std.ExtTreeMap.getElem?_insert_self, hmessages.2 (.inr ⟨rfl, rfl⟩)⟩
      · exact .inr ⟨_, rfl, rfl, hb⟩
    · rcases hmessages.1 hx with hx | ⟨rfl, -⟩
      · exact hx
      · exact absurd ha hauthor

/-- A board is swept. -/
theorem Settling.sweep
    (h : Settling limits calls ⟨boards, deleted, before ++ .sweep identity (name :: rest) :: after⟩) :
    let advanced := (Task.sweep identity (name :: rest)).advance boards deleted
    Settling limits calls ⟨advanced.1, deleted, before ++ advanced.2.toList ++ after⟩ := by
  have hidentity : identity ∈ deleted := h.sound (.sweep identity (name :: rest)) (by simp)
  have hleft : ∀ left ∈ some (Task.sweep identity rest), left.Sound limits calls deleted := by
    simpa [Task.Sound] using hidentity
  rw [Task.advance, modify_eq]
  cases hg : boards[name]? with
  | none =>
    refine h.replace_task hleft (fun b g id x hb _ _ hsweeps => ?_)
      fun x _ _ b hfiles => hfiles.elim
    obtain ⟨he, hmem⟩ := hsweeps
    rcases List.mem_cons.1 hmem with rfl | hmem
    · rw [hg] at hb
      cases hb
    · exact ⟨_, rfl, he, hmem⟩
  | some g =>
    rw [Option.elim_some]
    have hfits := h.fits name g hg
    have hmessages {q : MessageId} {x : Message} :
        (g.removeAuthor identity).1.messages[q]? = some x ↔
          g.messages[q]? = some x ∧ x.author ≠ identity := by
      rw [(hfits.coherent.removeAuthor identity).2.2.1]
      have hkeyed := hfits.coherent.keyed q x
      grind [Message.author]
    obtain ⟨m, hm, htargets⟩ :=
      h.tracked name (by simp [Std.ExtTreeMap.mem_iff_isSome_getElem?, hg])
    have hswept := h.set_board (hfits.removeAuthor hidentity) hm htargets
      (fun q x hx _ => ?_) fun q x hx ha => ?_
    · refine hswept.replace_task hleft (fun b g' q x hb hx _ hsweeps => ?_)
        fun x _ _ b hfiles => hfiles.elim
      obtain ⟨he, hmem⟩ := hsweeps
      rcases List.mem_cons.1 hmem with rfl | hmem
      · rw [Std.ExtTreeMap.getElem?_insert_self] at hb
        obtain rfl := Option.some.inj hb
        exact absurd he.symm (hmessages.1 hx).2
      · exact ⟨_, rfl, he, hmem⟩
    · rw [hg, Option.getD_some]
      exact (hmessages.1 hx).1
    · rw [hg, Option.getD_some] at hx
      exact hmessages.2 ⟨hx, fun he => ha (he ▸ hidentity)⟩

theorem Settling.step (h : Settling limits calls c) (hone : Consistent calls) (hstep : Step c c') :
    Settling limits calls c' := by
  obtain ⟨boards, deleted, before, after, task⟩ := hstep
  have hsound := h.sound task (by simp)
  cases task with
  | file m rest =>
    cases rest with
    | nil =>
      refine h.replace_task (by simp [Task.advance]) (fun b g id x _ _ _ hsweeps => hsweeps.elim)
        fun x _ _ b hfiles => ?_
      simp [Task.Files] at hfiles
    | cons name rest =>
      obtain ⟨hm, hrest⟩ := hsound
      obtain ⟨htargets, hrest⟩ := List.forall_mem_cons.1 hrest
      rw [Task.advance, insertIfNew_eq]
      have hset := h.set_board (h.fits_getD name) hm htargets (fun q x hx _ => hx)
        fun q x hx _ => hx
      refine hset.replace_task (by simpa [Task.Sound, hm, htargets] using hrest)
        (fun b g id x _ _ _ hsweeps => hsweeps.elim) fun x _ _ b hfiles => ?_
      exact .inr ⟨_, rfl, hfiles.1, List.mem_cons.1 hfiles.2⟩
  | enter m name rest => exact h.enter hone
  | list identity =>
    refine h.replace_task (by simpa [Task.advance, Task.Sound] using hsound)
      (fun b g id x hb _ _ he => ?_) fun x _ _ b hfiles => hfiles.elim
    refine ⟨_, rfl, he, Std.ExtTreeMap.mem_keys.2 ?_⟩
    rw [Std.ExtTreeMap.mem_iff_isSome_getElem?, hb, Option.isSome_some]
  | sweep identity rest =>
    cases rest with
    | nil =>
      refine h.replace_task (by simp [Task.advance]) (fun b g id x _ _ _ hsweeps => ?_)
        fun x _ _ b hfiles => hfiles.elim
      simp [Task.Sweeps] at hsweeps
    | cons name rest => exact h.sweep

/-- Every configuration that a schedule reaches is settling. -/
theorem settling_of_reaches (h : Reaches limits calls c) (hone : Consistent calls) :
    Settling limits calls c := by
  induction h with
  | initial => exact settling_initial limits
  | @begin calls c call h ih =>
    have hmem (m : Message) (hm : m ∈ delivered calls) : m ∈ delivered (calls ++ [call]) := by
      rw [delivered, List.filterMap_append]
      exact List.mem_append_left _ hm
    have hsettling := ih fun m hm m' hm' => hone m (hmem m hm) m' (hmem m' hm')
    cases call with
    | receive m announcedBy => exact hsettling.begin_receive m announcedBy
    | delete identity => exact hsettling.begin_delete identity
  | step h hstep ih => exact (ih hone).step hone hstep

/-- A message does not change a board that it does not target. -/
theorem Settling.advance_of_not_targets
    (h : Settling limits calls ⟨boards, deleted, before ++ task :: after⟩) (hm : m ∈ task.message?)
    (hb : m.targets b = false) : (task.advance boards deleted).1[b]? = boards[b]? := by
  have hsound := h.sound task (by simp)
  cases task with
  | list identity => cases hm
  | sweep identity rest => cases hm
  | file x rest =>
    obtain rfl : x = m := Option.some.inj hm
    cases rest with
    | nil => rfl
    | cons name rest =>
      have hname : name ≠ b := fun he => by simp [← he, hsound.2 name] at hb
      rw [Task.advance, insertIfNew_eq]
      simp [Std.ExtTreeMap.getElem?_insert, hname]
  | enter x name rest =>
    obtain rfl : x = m := Option.some.inj hm
    have hname : name ≠ b := fun he => by simp [← he, hsound.2.1] at hb
    rw [Task.advance]
    split
    · rfl
    · split
      · simp [Std.ExtTreeMap.getElem?_insert, hname]
      · rfl

/-! ## Nothing is under way -/

/-- In the end a board stores the messages that survive. -/
theorem Settling.stored_iff (h : Settling limits calls c) (hidle : c.tasks = [])
    (hg : c.boards[b]? = some g) {q : MessageId} :
    g.messages[q]? = some m ↔ m ∈ survivors limits calls b ∧ m.id = q := by
  have hfits := h.fits b g hg
  rw [mem_survivors]
  constructor
  · intro hm
    refine ⟨⟨hfits.allowed q m hm, hfits.name ▸ hfits.coherent.targets q m hm, fun ha => ?_⟩,
      hfits.coherent.keyed q m hm⟩
    obtain ⟨task, htask, -⟩ := h.swept b g q m hg hm ((h.deleted m.author).2 ha)
    simp [hidle] at htask
  · rintro ⟨⟨hm, hb, ha⟩, rfl⟩
    rcases h.filed m hm (fun hc => ha ((h.deleted m.author).1 hc)) b hb with
      ⟨g', hg', hstored⟩ | ⟨task, htask, -⟩
    · rwa [Option.some.inj (hg.symm.trans hg')]
    · simp [hidle] at htask

/-- What becomes of a tracked board, whatever the schedule. -/
structure Settled (limits : Limits) (calls : List Call) (b : BoardName) (g : Board) : Prop where
  eq_rebuild : ∀ S : List Message, (∀ m, m ∈ S ↔ m ∈ survivors limits calls b) →
    g = Board.rebuild b S g.deletedRoots.toList
  roots : ∀ k ∈ g.deletedRoots, .delete k.author ∈ calls ∧
    ∃ m ∈ survivors limits calls b, m.thread = some k

theorem Settling.settled (h : Settling limits calls c) (hidle : c.tasks = [])
    (hg : c.boards[b]? = some g) : Settled limits calls b g := by
  have hfits := h.fits b g hg
  refine ⟨fun S hS => ?_, fun k hk => ⟨(h.deleted k.author).1 (hfits.roots k hk), ?_⟩⟩
  · have hms (m : Message) : (m ∈ S ∧ m.targets g.name = true) ↔ g.messages[m.id]? = some m := by
      rw [h.stored_iff hidle hg, hS, hfits.name]
      exact ⟨fun hm => ⟨hm.1, rfl⟩, fun hm => ⟨hm.1, (mem_survivors.1 hm.1).2.1⟩⟩
    have hrebuild := hfits.coherent.eq_rebuild hms fun k => Std.ExtTreeSet.mem_toList
    rwa [hfits.name] at hrebuild
  · obtain ⟨-, id, m, hm⟩ := hfits.coherent.rootless_of_mem hk
    obtain ⟨hm, hthread⟩ := Board.replyIn?_eq_some.1 hm
    exact ⟨m, ((h.stored_iff hidle hg).1 hm).1, hthread⟩

/-- Without deletions, a board is tracked once some message targets it. -/
theorem Settling.mem_boards_iff (h : Settling limits calls c) (hidle : c.tasks = [])
    (hnone : ∀ a, .delete a ∉ calls) :
    b ∈ c.boards ↔ ∃ m ∈ passed limits calls, m.targets b = true := by
  refine ⟨h.tracked b, ?_⟩
  rintro ⟨m, hm, hb⟩
  rcases h.filed m hm (fun ha => hnone _ ((h.deleted _).1 ha)) b hb with
    ⟨g, hg, -⟩ | ⟨task, htask, -⟩
  · rw [Std.ExtTreeMap.mem_iff_isSome_getElem?, hg, Option.isSome_some]
  · simp [hidle] at htask

/-- Without deletions, a board depends on nothing but the messages that target it. -/
theorem Settling.same_board (h : Settling limits calls c) (h' : Settling limits calls' c')
    (hidle : c.tasks = []) (hidle' : c'.tasks = []) (hnone : ∀ a, .delete a ∉ calls)
    (hnone' : ∀ a, .delete a ∉ calls')
    (hsame : ∀ m : Message, m.targets b = true →
      (m ∈ passed limits calls ↔ m ∈ passed limits calls')) :
    c.boards[b]? = c'.boards[b]? := by
  have htracked : b ∈ c.boards ↔ b ∈ c'.boards := by
    rw [h.mem_boards_iff hidle hnone, h'.mem_boards_iff hidle' hnone']
    exact exists_congr fun m => and_congr_left fun hb => hsame m hb
  simp only [Std.ExtTreeMap.mem_iff_isSome_getElem?] at htracked
  cases hg : c.boards[b]? with
  | none =>
    rw [hg] at htracked
    exact (Option.not_isSome_iff_eq_none.1 (mt htracked.2 (by simp))).symm
  | some g =>
    obtain ⟨g', hg'⟩ := Option.isSome_iff_exists.1 (htracked.1 (by rw [hg, Option.isSome_some]))
    have hfits := h.fits b g hg
    have hfits' := h'.fits b g' hg'
    have hmessages : g.messages = g'.messages := by
      refine Std.ExtTreeMap.ext_getElem? fun q => Option.ext fun m => ?_
      simp only [h.stored_iff hidle hg, h'.stored_iff hidle' hg', mem_survivors, hnone, hnone']
      have hsame := hsame m
      tauto
    have hroots : g.deletedRoots = g'.deletedRoots := by
      refine Std.ExtTreeSet.ext_mem fun k => iff_of_false (fun hk => ?_) fun hk => ?_
      · exact hnone _ ((h.settled hidle hg).roots k hk).1
      · exact hnone' _ ((h'.settled hidle' hg').roots k hk).1
    have hname : g.name = g'.name := hfits.name.trans hfits'.name.symm
    rw [hg', hfits.coherent.ext hfits'.coherent hname hmessages hroots]

/-- Whatever the order and the interleaving of the calls, every board settles to what rebuilding
makes of the messages that survive. Calls made one after another are among the schedules. Every
schedule ends. Without deletions nothing else matters to a board than which messages target it, and
no message changes a board that it does not target. -/
theorem schedule_settles (config : EngineConfig) (trust : Trust) (now : Timestamp)
    {calls : List Call} (hone : Consistent calls) :
    Reaches config.validation calls
      ⟨((Engine.new config trust now).calls calls).state.boards,
        ((Engine.new config trust now).calls calls).state.deleted, []⟩ ∧
    (WellFounded fun c' c : Config => Step c c') ∧
    ∀ c, Reaches config.validation calls c →
      (c.tasks = [] → ∀ (b : BoardName) (g : Board), c.boards[b]? = some g →
        Settled config.validation calls b g) ∧
      (c.tasks = [] → (∀ a, .delete a ∉ calls) → ∀ (calls' : List Call) (c' : Config),
        Consistent calls' → (∀ a, .delete a ∉ calls') → Reaches config.validation calls' c' →
        c'.tasks = [] → ∀ b, (∀ m : Message, m.targets b = true →
          (m ∈ passed config.validation calls ↔ m ∈ passed config.validation calls')) →
        c.boards[b]? = c'.boards[b]?) ∧
      ∀ (before after : List Task) (task : Task), c.tasks = before ++ task :: after →
        ∀ m ∈ task.message?, ∀ b, m.targets b = false →
          (task.advance c.boards c.deleted).1[b]? = c.boards[b]? := by
  refine ⟨reaches_engine config trust now calls, wellFounded_step, fun c hc => ?_⟩
  have hsettling := settling_of_reaches hc hone
  refine ⟨fun hidle b g hg => hsettling.settled hidle hg, ?_, ?_⟩
  · intro hidle hnone calls' c' hone' hnone' hc' hidle' b hsame
    exact hsettling.same_board (settling_of_reaches hc' hone') hidle hidle' hnone hnone' hsame
  · intro before after task htasks m hm b hb
    obtain ⟨boards, deleted, tasks⟩ := c
    obtain rfl : tasks = before ++ task :: after := htasks
    exact hsettling.advance_of_not_targets hm hb

/-- A ring whose root is deleted while its replies arrive, one of them twice. -/
def ringCalls : List Call :=
  [.receive Board.Ring.first none, .receive Board.Ring.root none, .delete Board.Ring.root.author,
    .receive Board.Ring.second none, .receive Board.Ring.first (some Board.Ring.first.author)]

theorem ring_schedule_settles :
    Consistent ringCalls ∧
    (∀ c, Reaches {} ringCalls c → c.tasks = [] → ∀ g, c.boards[Board.Ring.board]? = some g →
      g = Board.rebuild Board.Ring.board [Board.Ring.second, Board.Ring.first]
        g.deletedRoots.toList) ∧
    ((Engine.new {} .everyone 0).calls ringCalls).state.boards[Board.Ring.board]? = some
      (Board.rebuild Board.Ring.board [Board.Ring.second, Board.Ring.first]
        [Board.Ring.root.id]) := by
  have hone : Consistent ringCalls := by decide +kernel
  have hsurvivors (m : Message) : m ∈ [Board.Ring.second, Board.Ring.first] ↔
      m ∈ survivors {} ringCalls Board.Ring.board := by
    have hlist : survivors {} ringCalls Board.Ring.board =
        [Board.Ring.first, Board.Ring.second, Board.Ring.first] := by decide +kernel
    simp only [hlist, List.mem_cons, List.not_mem_nil, or_false]
    tauto
  obtain ⟨hengine, -, hreached⟩ := schedule_settles {} .everyone 0 hone
  have hrebuild (c : Config) (hc : Reaches {} ringCalls c) (hidle : c.tasks = []) (g : Board)
      (hg : c.boards[Board.Ring.board]? = some g) : g = Board.rebuild Board.Ring.board
        [Board.Ring.second, Board.Ring.first] g.deletedRoots.toList :=
    ((hreached c hc).1 hidle Board.Ring.board g hg).eq_rebuild _ hsurvivors
  refine ⟨hone, hrebuild, ?_⟩
  have hroots : ((Engine.new {} .everyone 0).calls ringCalls).state.boards[Board.Ring.board]?.map
      (·.deletedRoots.toList) = some [Board.Ring.root.id] := by decide +kernel
  obtain ⟨g, hg, hroots⟩ := Option.map_eq_some_iff.1 hroots
  rw [hg, ← hroots]
  exact congrArg some (hrebuild _ hengine rfl g hg)

end

end Schedule

end Noticeboard
