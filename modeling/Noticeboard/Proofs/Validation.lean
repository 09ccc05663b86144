import Noticeboard.Proofs.Collections
import Noticeboard.Validation

/-!
# Validated messages

A chain of checks succeeds if each of them does (`bind_eq_ok`), so a message that passes keeps every
rule.
-/

namespace Noticeboard

theorem bind_eq_ok {ε α β : Type} {x : Except ε α} {f : α → Except ε β} {b : β} :
    (x >>= f) = .ok b ↔ ∃ a, x = .ok a ∧ f a = .ok b := by
  cases x <;> simp [bind, Except.bind]

theorem Message.namesItself_of_validate {m : Message} {announcedBy : Option IdentityId}
    {limits : Limits} (h : m.validate announcedBy limits = .ok ()) : m.namesItself = false := by
  simp only [validate, bind_eq_ok] at h
  obtain ⟨_, -, _, -, _, -, _, -, _, -, _, -, _, -, _, -, _, -, hself⟩ := h
  cases hnames : m.namesItself with
  | false => rfl
  | true => simp [require, hnames] at hself

theorem Message.exists_targets_of_validate {m : Message} {announcedBy : Option IdentityId}
    {limits : Limits} (h : m.validate announcedBy limits = .ok ()) : ∃ b, m.targets b = true := by
  simp only [validate, bind_eq_ok] at h
  obtain ⟨_, -, _, -, _, -, _, -, _, -, _, -, _, hboards, -⟩ := h
  have hboards : ¬ m.boards.isEmpty = true := fun hempty => by simp [require, hempty] at hboards
  obtain ⟨b, hb⟩ := exists_mem_of_not_isEmpty hboards
  exact ⟨b, Std.ExtTreeSet.mem_iff_contains.1 hb⟩

end Noticeboard
