import Noticeboard.MessageId

/-!
# Maps and sets

Facts about sorted maps and sets that the library does not have under these forms: their lists have
no repeats, a map is that of its list, and a test of all entries finds one that passes.
-/

namespace Noticeboard

variable {α β : Type} [Ord α] [Std.TransOrd α]

theorem mem_iff_getElem? {m : Std.ExtTreeMap α β} {k : α} : k ∈ m ↔ ∃ v, m[k]? = some v := by
  rw [Std.ExtTreeMap.mem_iff_isSome_getElem?, Option.isSome_iff_exists]

/-- An entry that takes the place of another adds no key. -/
theorem mem_of_mem_replace [Std.LawfulEqOrd α] {m : Std.ExtTreeMap α β} {k a : α} {v w : β}
    (hk : m[k]? = some v) (ha : a ∈ m.insert k w) : a ∈ m := by
  rcases Std.ExtTreeMap.mem_insert.1 ha with he | ha
  · rw [← Std.LawfulEqOrd.eq_of_compare he]
    exact mem_iff_getElem?.2 ⟨v, hk⟩
  · exact ha

theorem nodup_toList [Std.LawfulEqOrd α] (s : Std.ExtTreeSet α) : s.toList.Nodup := by
  simpa [List.Nodup] using s.distinct_toList

theorem nodup_keys [Std.LawfulEqOrd α] (m : Std.ExtTreeMap α β) : m.keys.Nodup := by
  simpa [List.Nodup] using m.distinct_keys

theorem exists_mem_of_not_isEmpty [Std.LawfulEqOrd α] {s : Std.ExtTreeSet α}
    (h : ¬ s.isEmpty = true) : ∃ a, a ∈ s := by
  refine Classical.byContradiction fun hnone => h (Std.ExtTreeSet.isEmpty_iff.2 ?_)
  refine Std.ExtTreeSet.ext_mem fun a => ?_
  exact ⟨fun ha => absurd ⟨a, ha⟩ hnone, fun ha => absurd ha Std.ExtTreeSet.not_mem_empty⟩

theorem mem_ofList [Std.LawfulEqOrd α] [DecidableEq α] {l : List α} {a : α} :
    a ∈ Std.ExtTreeSet.ofList l ↔ a ∈ l := by
  rw [Std.ExtTreeSet.mem_ofList, List.contains_iff_mem]

theorem mem_set_filter [Std.LawfulEqOrd α] {s : Std.ExtTreeSet α} {p : α → Bool} {a : α} :
    a ∈ s.filter p ↔ a ∈ s ∧ p a = true := by
  simp [Std.ExtTreeSet.mem_filter]

theorem mem_ite_singleton [Std.LawfulEqOrd α] {p : Prop} [Decidable p] {a b : α} :
    a ∈ (if p then {b} else ∅ : Std.ExtTreeSet α) ↔ p ∧ a = b := by
  split <;> simp [*, Std.ExtTreeSet.singleton_eq_insert, @eq_comm _ a]

theorem ofList_toList_set [Std.LawfulEqOrd α] [DecidableEq α] (s : Std.ExtTreeSet α) :
    Std.ExtTreeSet.ofList s.toList = s :=
  Std.ExtTreeSet.ext_mem fun _ => mem_ofList.trans Std.ExtTreeSet.mem_toList

theorem ofList_toList [Std.LawfulEqOrd α] [DecidableEq α] (m : Std.ExtTreeMap α β) :
    Std.ExtTreeMap.ofList m.toList = m := by
  refine Std.ExtTreeMap.ext_getElem? fun k => ?_
  cases hk : m[k]? with
  | none =>
    refine Std.ExtTreeMap.getElem?_ofList_of_contains_eq_false ?_
    rw [Std.ExtTreeMap.map_fst_toList_eq_keys, ← Bool.not_eq_true, List.contains_iff_mem,
      Std.ExtTreeMap.mem_keys, Std.ExtTreeMap.mem_iff_isSome_getElem?, hk]
    exact Bool.false_ne_true
  | some v =>
    exact Std.ExtTreeMap.getElem?_ofList_of_mem Std.ReflCmp.compare_self
      m.distinct_keys_toList (Std.ExtTreeMap.mem_toList_iff_getElem?_eq_some.2 hk)

theorem getElem?_ofList_map [Std.LawfulEqOrd α] [DecidableEq α] (s : Std.ExtTreeSet α) (f : α → β)
    (k : α) : (Std.ExtTreeMap.ofList (s.toList.map fun a => (a, f a)))[k]? =
      if k ∈ s then some (f k) else none := by
  have hkeys : (s.toList.map fun a => (a, f a)).map Prod.fst = s.toList := by
    simp [Function.comp_def]
  split
  · next hk =>
    refine Std.ExtTreeMap.getElem?_ofList_of_mem Std.ReflCmp.compare_self ?_
      (List.mem_map.2 ⟨k, Std.ExtTreeSet.mem_toList.2 hk, rfl⟩)
    exact List.pairwise_map.2 s.distinct_toList
  · next hk =>
    refine Std.ExtTreeMap.getElem?_ofList_of_contains_eq_false ?_
    rw [hkeys, ← Bool.not_eq_true, List.contains_iff_mem, Std.ExtTreeSet.mem_toList]
    exact hk

/-- A map of sets none of which is empty is determined by the elements of its sets. -/
theorem ext_mem_entries [Std.LawfulEqOrd α] [Ord β] [Std.TransOrd β] [Std.LawfulEqOrd β]
    {m m' : Std.ExtTreeMap α (Std.ExtTreeSet β)}
    (h : ∀ (k : α) (s : Std.ExtTreeSet β), m[k]? = some s → ∃ b, b ∈ s)
    (h' : ∀ (k : α) (s : Std.ExtTreeSet β), m'[k]? = some s → ∃ b, b ∈ s)
    (heq : ∀ (k : α) (b : β), (∃ s, m[k]? = some s ∧ b ∈ s) ↔ ∃ s, m'[k]? = some s ∧ b ∈ s) :
    m = m' := by
  have hsub {m m' : Std.ExtTreeMap α (Std.ExtTreeSet β)} {k : α} {s : Std.ExtTreeSet β}
      (h : ∀ s : Std.ExtTreeSet β, m[k]? = some s → ∃ b, b ∈ s)
      (heq : ∀ b, (∃ s, m[k]? = some s ∧ b ∈ s) ↔ ∃ s, m'[k]? = some s ∧ b ∈ s)
      (hs : m[k]? = some s) : m'[k]? = some s := by
    obtain ⟨b, hb⟩ := h s hs
    obtain ⟨s', hs', -⟩ := (heq b).1 ⟨s, hs, hb⟩
    rw [hs']
    refine congrArg some (Std.ExtTreeSet.ext_mem fun x => ?_)
    have hx := heq x
    simp only [hs, hs', Option.some.injEq, exists_eq_left'] at hx
    exact hx.symm
  refine Std.ExtTreeMap.ext_getElem? fun k => Option.ext fun s => ?_
  exact ⟨hsub (h k) (heq k), hsub (h' k) fun b => (heq k b).symm⟩

theorem foldl_insert_values [Std.LawfulEqOrd α] [DecidableEq α] {m : Std.ExtTreeMap α β}
    {key : β → α} (h : ∀ k v, m[k]? = some v → key v = k) :
    (m.toList.map (·.2)).foldl (fun n v => n.insert (key v) v) (∅ : Std.ExtTreeMap α β) = m := by
  have hkeyed : m.toList.map (fun e => (key e.2, e.2)) = m.toList := by
    refine (List.map_congr_left fun e he => ?_).trans m.toList.map_id
    rw [h e.1 e.2 (Std.ExtTreeMap.mem_toList_iff_getElem?_eq_some.1 he), id]
  calc (m.toList.map (·.2)).foldl (fun n v => n.insert (key v) v) (∅ : Std.ExtTreeMap α β)
      = (m.toList.map fun e => (key e.2, e.2)).foldl (fun n e => n.insert e.1 e.2) ∅ := by
        rw [List.foldl_map, List.foldl_map]
    _ = Std.ExtTreeMap.ofList m.toList := by rw [hkeyed, Std.ExtTreeMap.ofList_eq_foldl]
    _ = m := ofList_toList m

theorem getElem?_filter_key [Std.LawfulEqOrd α] (m : Std.ExtTreeMap α β) (p : α → Bool) (k : α) :
    (m.filter fun k _ => p k)[k]? = if p k then m[k]? else none := by
  rw [Std.ExtTreeMap.getElem?_filter']
  cases m[k]? <;> simp [Option.filter]

theorem map_find?_toList [Std.LawfulEqOrd α] (m : Std.ExtTreeMap α β) (k : α) :
    (m.toList.find? fun e => compare e.1 k == .eq).map (·.2) = m[k]? := by
  cases hk : m[k]? with
  | none =>
    rw [Option.map_eq_none_iff, Std.ExtTreeMap.find?_toList_eq_none_iff_not_mem,
      Std.ExtTreeMap.mem_iff_isSome_getElem?, hk]
    exact Bool.false_ne_true
  | some v =>
    refine Option.map_eq_some_iff.2 ⟨(k, v), ?_, rfl⟩
    exact Std.ExtTreeMap.find?_toList_eq_some_iff_getKey?_eq_some_and_getElem?_eq_some.2
      ⟨Std.ExtTreeMap.getKey?_eq_some (mem_iff_getElem?.2 ⟨v, hk⟩), hk⟩

/-- Where each step keeps what the key has, the first step that has something for it decides. -/
theorem getElem?_foldl_or {γ : Type} {f : Std.ExtTreeMap α β → γ → Std.ExtTreeMap α β}
    {g : γ → Option β} {k : α} (h : ∀ m e, (f m e)[k]? = m[k]?.or (g e)) (l : List γ)
    (m : Std.ExtTreeMap α β) : (l.foldl f m)[k]? = m[k]?.or (l.findSome? g) := by
  induction l generalizing m with
  | nil => rw [List.foldl_nil, List.findSome?_nil, Option.or_none]
  | cons e rest ih =>
    rw [List.foldl_cons, ih, h, Option.or_assoc, List.findSome?_cons]
    cases g e <;> rfl

theorem getElem?_foldl_insertIfNew [Std.LawfulEqOrd α] (l : List (α × β)) (m : Std.ExtTreeMap α β)
    (k : α) : (l.foldl (fun m (k, v) => m.insertIfNew k v) m)[k]? =
      m[k]?.or ((l.find? fun e => compare e.1 k == .eq).map (·.2)) := by
  induction l generalizing m with
  | nil => simp
  | cons e rest ih =>
    rw [List.foldl_cons, ih, Std.ExtTreeMap.getElem?_insertIfNew, List.find?_cons]
    by_cases he : compare e.1 k = .eq
    · obtain rfl := Std.LawfulEqOrd.eq_of_compare he
      cases hm : m[e.1]? <;> simp [Std.ExtTreeMap.mem_iff_isSome_getElem?, hm]
    · rw [beq_false_of_ne he, if_neg fun h => he h.1]

theorem insert_insertIfNew [Std.LawfulEqOrd α] (m : Std.ExtTreeMap α β) (k : α) (v w : β) :
    (m.insertIfNew k v).insert k w = m.insert k w := by
  refine Std.ExtTreeMap.ext_getElem? fun a => ?_
  simp only [Std.ExtTreeMap.getElem?_insert, Std.ExtTreeMap.getElem?_insertIfNew]
  split
  · rfl
  · next hne => exact if_neg fun he => hne he.1

theorem insertIfNew_eq [Std.LawfulEqOrd α] (m : Std.ExtTreeMap α β) (k : α) (v : β) :
    m.insertIfNew k v = m.insert k (m[k]?.getD v) := by
  refine Std.ExtTreeMap.ext_getElem? fun a => ?_
  simp only [Std.ExtTreeMap.getElem?_insert, Std.ExtTreeMap.getElem?_insertIfNew,
    Std.LawfulEqOrd.compare_eq_iff_eq, Std.ExtTreeMap.mem_iff_isSome_getElem?]
  by_cases ha : k = a
  · subst ha
    cases hk : m[k]? <;> simp [Std.ExtTreeMap.mem_iff_isSome_getElem?, hk]
  · simp [ha]

theorem insert_erase [Std.LawfulEqOrd α] {m : Std.ExtTreeMap α β} {k : α} {v : β} :
    (m.erase k).insert k v = m.insert k v := by
  refine Std.ExtTreeMap.ext_getElem? fun a => ?_
  grind

theorem insert_of_getElem? [Std.LawfulEqOrd α] {m : Std.ExtTreeMap α β} {k : α} {v : β}
    (hk : m[k]? = some v) : m.insert k v = m := by
  refine Std.ExtTreeMap.ext_getElem? fun a => ?_
  grind

theorem size_eq_size_erase_add_one [Std.LawfulEqOrd α] {m : Std.ExtTreeMap α β} {k : α}
    (hk : k ∈ m) : m.size = (m.erase k).size + 1 := by
  have hnew : k ∉ m.erase k := by simp
  obtain ⟨v, hv⟩ := mem_iff_getElem?.1 hk
  have hsize := Std.ExtTreeMap.size_insert (t := m.erase k) (k := k) (v := v)
  rw [insert_erase, insert_of_getElem? hv] at hsize
  exact hsize.trans (if_neg hnew)

/-- A new entry is one more that passes, or none. -/
theorem size_filter_insert [Std.LawfulEqOrd α] {m : Std.ExtTreeMap α β} {k : α} (hk : k ∉ m)
    (v : β) (p : β → Bool) : ((m.insert k v).filter fun _ w => p w).size =
      (m.filter fun _ w => p w).size + if p v then 1 else 0 := by
  cases hp : p v with
  | true =>
    have heq : ((m.insert k v).filter fun _ w => p w) = (m.filter fun _ w => p w).insert k v := by
      refine Std.ExtTreeMap.ext_getElem? fun a => ?_
      grind
    have hnew : k ∉ m.filter fun _ w => p w := fun hin => hk (Std.ExtTreeMap.mem_of_mem_filter hin)
    rw [heq, Std.ExtTreeMap.size_insert]
    exact if_neg hnew
  | false =>
    have heq : ((m.insert k v).filter fun _ w => p w) = m.filter fun _ w => p w := by
      refine Std.ExtTreeMap.ext_getElem? fun a => ?_
      grind
    simp [heq]

theorem size_filter_erase [Std.LawfulEqOrd α] {m : Std.ExtTreeMap α β} {k : α} {v : β}
    (hk : m[k]? = some v) (p : β → Bool) : (m.filter fun _ w => p w).size =
      ((m.erase k).filter fun _ w => p w).size + if p v then 1 else 0 := by
  have hnew : k ∉ m.erase k := by simp
  rw [← size_filter_insert hnew v p, insert_erase, insert_of_getElem? hk]

theorem size_filter_replace [Std.LawfulEqOrd α] {m : Std.ExtTreeMap α β} {k : α} {v w : β}
    (hk : m[k]? = some v) {p : β → Bool} (hp : p w = p v) :
    ((m.insert k w).filter fun _ u => p u).size = (m.filter fun _ u => p u).size := by
  have hnew : k ∉ m.erase k := by simp
  rw [size_filter_erase hk p, ← insert_erase, size_filter_insert hnew, hp]

/-- What passes and what does not make up the whole. -/
theorem size_filter_add_size_filter_not [Std.LawfulEqOrd α] (m : Std.ExtTreeMap α β)
    (p : α → β → Bool) : (m.filter p).size + (m.filter fun k v => !p k v).size = m.size := by
  simp only [← Std.ExtTreeMap.length_toList, Std.ExtTreeMap.toList_filter,
    ← List.countP_eq_length_filter]
  rw [List.length_eq_countP_add_countP fun e => p e.1 e.2]
  simp only [Bool.not_eq_true, Bool.decide_eq_false]

theorem any_eq_forIn (m : Std.ExtTreeMap α β) (p : α → β → Bool) :
    m.any p = Id.run (do
      for (k, v) in m do
        if p k v then return true
      return false) := by
  obtain ⟨t⟩ := m
  induction t using Std.ExtDTreeMap.inductionOn with
  | mk t => rfl

theorem any_eq_toList_any (m : Std.ExtTreeMap α β) (p : α → β → Bool) :
    m.any p = m.toList.any fun e => p e.1 e.2 := by
  rw [any_eq_forIn, Std.ExtTreeMap.forIn_eq_forIn_toList]
  induction m.toList with
  | nil => rfl
  | cons e rest ih =>
    simp only [List.forIn_cons, List.any_cons] at ih ⊢
    cases p e.1 e.2
    · simpa using ih
    · simp

theorem any_iff [Std.LawfulEqOrd α] {m : Std.ExtTreeMap α β} {p : α → β → Bool} :
    m.any p = true ↔ ∃ k v, m[k]? = some v ∧ p k v = true := by
  rw [any_eq_toList_any, List.any_eq_true]
  simp only [Prod.exists, Std.ExtTreeMap.mem_toList_iff_getElem?_eq_some]

theorem mem_values [Std.LawfulEqOrd α] {m : Std.ExtTreeMap α β} {v : β} :
    v ∈ m.values ↔ ∃ k : α, m[k]? = some v := by
  have hvalues : m.values = m.toList.map (·.2) := by
    obtain ⟨t⟩ := m
    induction t using Std.ExtDTreeMap.inductionOn with
    | mk t =>
      show Std.DTreeMap.Internal.Impl.values t.inner =
        (Std.DTreeMap.Internal.Impl.Const.toList t.inner).map (·.2)
      rw [Std.DTreeMap.Internal.Impl.values_eq_map_snd,
        Std.DTreeMap.Internal.Impl.Const.toList_eq_toListModel_map, List.map_map]
      rfl
  rw [hvalues, List.mem_map]
  simp only [Prod.exists, exists_eq_right, Std.ExtTreeMap.mem_toList_iff_getElem?_eq_some]

end Noticeboard
