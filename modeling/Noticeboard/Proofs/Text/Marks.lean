import Mathlib.Data.List.Induction
import Noticeboard.Proofs.Validation

/-!
# Texts that pass the check

The check reads a text once and keeps two counts and the standing in a gloss. What it has after each
character is determined by the characters read so far (`Marks.Stands`): how many embeddings and how
many isolates they leave open, no beginning of them having closed more than it opened, and how far the
last gloss has come. One more character takes each of the three on without regard to the others
(`Marks.read_eq_ok_iff`), so marks of different kinds may interleave in any way.

A text passes if nothing is left open in the end (`TextField.check_passes_iff`).
-/

namespace Noticeboard

namespace Text

variable {openers cs : List Char} {closer c : Char} {multiline : Bool} {n n' : Nat} {s s' : Marks}
  {g g' : Gloss}

/-! ## Balance -/

/-- No beginning of the text closes more than it opens, and `n` are open in the end. -/
structure LeavesOpen (openers : List Char) (closer : Char) (cs : List Char) (n : Nat) : Prop where
  beginnings : ∀ l, l <+: cs → l.count closer ≤ l.countP (· ∈ openers)
  totals : cs.countP (· ∈ openers) = cs.count closer + n

/-- One more character takes the number of open marks from `n` to `n'`. -/
def Counts (openers : List Char) (closer c : Char) (n n' : Nat) : Prop :=
  (c ∈ openers ∧ n' = n + 1) ∨ (c = closer ∧ n = n' + 1) ∨ (c ∉ openers ∧ c ≠ closer ∧ n' = n)

theorem leavesOpen_nil : LeavesOpen openers closer [] n ↔ n = 0 := by
  constructor
  · intro h
    simpa using h.totals.symm
  · rintro rfl
    refine ⟨fun l hl => ?_, by simp⟩
    simp [List.prefix_nil.1 hl]

theorem leavesOpen_concat (hcloser : closer ∉ openers) :
    LeavesOpen openers closer (cs ++ [c]) n' ↔
      ∃ n, LeavesOpen openers closer cs n ∧ Counts openers closer c n n' := by
  have hopened : (cs ++ [c]).countP (· ∈ openers) =
      cs.countP (· ∈ openers) + if c ∈ openers then 1 else 0 := by
    simp [List.countP_append, List.countP_singleton]
  have hclosed : (cs ++ [c]).count closer = cs.count closer + if c = closer then 1 else 0 := by
    simp [List.count_append, List.count_singleton]
  constructor
  · intro h
    have hbefore := h.beginnings cs (List.prefix_append cs [c])
    have htotals := h.totals
    rw [hopened, hclosed] at htotals
    refine ⟨cs.countP (· ∈ openers) - cs.count closer,
      ⟨fun l hl => h.beginnings l (hl.trans (List.prefix_append cs [c])), by omega⟩, ?_⟩
    by_cases hopens : c ∈ openers
    · have hne : c ≠ closer := fun he => hcloser (he ▸ hopens)
      rw [if_pos hopens, if_neg hne] at htotals
      exact .inl ⟨hopens, by omega⟩
    · by_cases hcloses : c = closer
      · rw [if_neg hopens, if_pos hcloses] at htotals
        exact .inr (.inl ⟨hcloses, by omega⟩)
      · rw [if_neg hopens, if_neg hcloses] at htotals
        exact .inr (.inr ⟨hopens, hcloses, by omega⟩)
  · rintro ⟨n, h, hcounts⟩
    have hafter : (cs ++ [c]).countP (· ∈ openers) = (cs ++ [c]).count closer + n' := by
      rw [hopened, hclosed, h.totals]
      rcases hcounts with ⟨hopens, rfl⟩ | ⟨rfl, rfl⟩ | ⟨hopens, hcloses, rfl⟩
      · have hne : c ≠ closer := fun he => hcloser (he ▸ hopens)
        rw [if_pos hopens, if_neg hne]
        omega
      · rw [if_neg hcloser, if_pos rfl]
        omega
      · rw [if_neg hopens, if_neg hcloses]
        omega
    refine ⟨fun l hl => ?_, hafter⟩
    rcases List.prefix_concat_iff.1 hl with rfl | hl
    · omega
    · exact h.beginnings l hl

/-! ## Glosses -/

/-- The marks of a whole gloss. -/
def glossMarks : List Char := ['\ufff9', '\ufffa', '\ufffb']

/-- The marks of a gloss that have come so far. -/
def Gloss.begun : Gloss → List Char
  | outside => []
  | annotated => ['\ufff9']
  | annotating => ['\ufff9', '\ufffa']

/-- The marks of glosses in the text are those of several whole ones, and of one that has come as far as
`g`. -/
def Glosses (cs : List Char) (g : Gloss) : Prop :=
  ∃ n, cs.filter (· ∈ glossMarks) = (List.replicate n glossMarks).flatten ++ g.begun

/-- One more character takes the standing in a gloss from `g` to `g'`. -/
def Gloss.Advances (c : Char) (g g' : Gloss) : Prop :=
  (c ∈ glossMarks ∧ g.next? c = some g') ∨ (c ∉ glossMarks ∧ g' = g)

theorem Gloss.next?_eq_some_iff : g.next? c = some g' ↔
    g'.begun = g.begun ++ [c] ∨ (g' = .outside ∧ glossMarks = g.begun ++ [c]) := by
  constructor
  · intro h
    unfold next? at h
    split at h <;> cases h
    · exact .inl rfl
    · exact .inl rfl
    · exact .inr ⟨rfl, rfl⟩
  · rintro (h | ⟨rfl, h⟩)
    · cases g <;> cases g' <;> simp [begun] at h <;> subst h <;> rfl
    · cases g <;> simp [begun, glossMarks] at h
      subst h
      rfl

theorem glosses_concat : Glosses (cs ++ [c]) g' ↔ ∃ g, Glosses cs g ∧ g.Advances c g' := by
  rcases Classical.em (c ∈ glossMarks) with hmark | hmark
  case inr =>
    have hfilter : (cs ++ [c]).filter (· ∈ glossMarks) = cs.filter (· ∈ glossMarks) := by
      simp [List.filter_append, hmark]
    simp [Glosses, Gloss.Advances, hfilter, hmark]
  have hfilter : (cs ++ [c]).filter (· ∈ glossMarks) = cs.filter (· ∈ glossMarks) ++ [c] := by
    simp [List.filter_append, hmark]
  have hwhole (n : Nat) : (List.replicate (n + 1) glossMarks).flatten =
      (List.replicate n glossMarks).flatten ++ glossMarks := by
    rw [List.replicate_succ', List.flatten_concat]
  simp only [Glosses, hfilter, Gloss.Advances, hmark, true_and, not_true_eq_false, false_and, or_false,
    Gloss.next?_eq_some_iff]
  constructor
  · rintro ⟨n, h⟩
    -- The last mark is the last one begun, or the end of the last whole gloss.
    cases g' with
    | outside =>
      cases n with
      | zero => simp [Gloss.begun] at h
      | succ n =>
        rw [hwhole, Gloss.begun, List.append_nil] at h
        have hsplit : glossMarks = Gloss.annotating.begun ++ ['\ufffb'] := rfl
        rw [hsplit, ← List.append_assoc] at h
        obtain ⟨hbefore, hc⟩ := List.append_inj' h rfl
        exact ⟨.annotating, ⟨n, hbefore⟩, .inr ⟨rfl, by rw [hc, hsplit]⟩⟩
    | annotated =>
      obtain ⟨hbefore, hc⟩ := List.append_inj' h rfl
      exact ⟨.outside, ⟨n, by rw [hbefore, Gloss.begun, List.append_nil]⟩, .inl (by rw [hc]; rfl)⟩
    | annotating =>
      have hsplit : Gloss.annotating.begun = Gloss.annotated.begun ++ ['\ufffa'] := rfl
      rw [hsplit, ← List.append_assoc] at h
      obtain ⟨hbefore, hc⟩ := List.append_inj' h rfl
      exact ⟨.annotated, ⟨n, hbefore⟩, .inl (by rw [hc, hsplit])⟩
  · rintro ⟨g, ⟨n, hbefore⟩, hbegun | ⟨rfl, hwholly⟩⟩
    · exact ⟨n, by rw [hbefore, hbegun, List.append_assoc]⟩
    · refine ⟨n + 1, ?_⟩
      rw [hbefore, List.append_assoc, ← hwholly, hwhole, Gloss.begun, List.append_nil]

/-! ## Reading -/

/-- The openers of embeddings and overrides. -/
def embeddingOpeners : List Char := ['\u202a', '\u202b', '\u202d', '\u202e']

/-- The openers of isolates. -/
def isolateOpeners : List Char := ['\u2066', '\u2067', '\u2068']

/-- The character is no control, or one that the text may hold. -/
def Admits (multiline : Bool) (c : Char) : Prop :=
  c.toNat ≤ 0x1f ∨ (0x7f ≤ c.toNat ∧ c.toNat ≤ 0x9f) → multiline = true ∧ (c = '\n' ∨ c = '\t')

theorem opensEmbedding_iff : opensEmbedding c = true ↔ c ∈ embeddingOpeners := by
  simp [opensEmbedding, embeddingOpeners, or_assoc]

theorem opensIsolate_iff : opensIsolate c = true ↔ c ∈ isolateOpeners := by
  simp [opensIsolate, isolateOpeners, or_assoc]

theorem isGlossMark_iff : isGlossMark c = true ↔ c ∈ glossMarks := by
  simp [isGlossMark, glossMarks, or_assoc]

theorem admits_iff : (isControl c && !(multiline && isLayout c)) = false ↔ Admits multiline c := by
  have hcontrol : isControl c = true ↔ c.toNat ≤ 0x1f ∨ (0x7f ≤ c.toNat ∧ c.toNat ≤ 0x9f) := by
    simp only [isControl, Bool.or_eq_true, Bool.and_eq_true, decide_eq_true_iff]
    omega
  have hlayout : isLayout c = true ↔ c = '\n' ∨ c = '\t' := by
    simp [isLayout]
  rw [Admits, ← hcontrol, ← hlayout]
  cases isControl c <;> simp

namespace Marks

/-- One more character takes on each of the three on its own. -/
theorem read_eq_ok_iff : read multiline s c = .ok s' ↔ Admits multiline c ∧
    Counts embeddingOpeners '\u202c' c s.embeddings s'.embeddings ∧
    Counts isolateOpeners '\u2069' c s.isolates s'.isolates ∧ s.gloss.Advances c s'.gloss := by
  have hembedding : ∀ c ∈ embeddingOpeners,
      c ≠ '\u202c' ∧ c ∉ isolateOpeners ∧ c ≠ '\u2069' ∧ c ∉ glossMarks := by
    simp [embeddingOpeners, isolateOpeners, glossMarks]
  have hisolate : ∀ c ∈ isolateOpeners, c ≠ '\u202c' ∧ c ≠ '\u2069' ∧ c ∉ glossMarks := by
    simp [isolateOpeners, glossMarks]
  have hgloss : ∀ c ∈ glossMarks, c ≠ '\u202c' ∧ c ≠ '\u2069' := by simp [glossMarks]
  obtain ⟨e, i, g⟩ := s
  obtain ⟨e', i', g'⟩ := s'
  simp only [read, Counts, Gloss.Advances, closesEmbedding, closesIsolate, opensEmbedding_iff,
    opensIsolate_iff, isGlossMark_iff, beq_iff_eq]
  split
  · next hcontrol =>
    have hadmits : ¬ Admits multiline c := by
      rw [← admits_iff, hcontrol]
      decide
    simp [hadmits]
  · next hcontrol =>
    rw [and_iff_right (admits_iff.1 (Bool.eq_false_iff.2 hcontrol))]
    -- The kinds of marks exclude each other, so that at most one of the three is taken on.
    grind

/-- What has been read so far, and what it leaves open. -/
structure Stands (multiline : Bool) (cs : List Char) (s : Marks) : Prop where
  clean : ∀ c ∈ cs, Admits multiline c
  embeddings : LeavesOpen embeddingOpeners '\u202c' cs s.embeddings
  isolates : LeavesOpen isolateOpeners '\u2069' cs s.isolates
  gloss : Glosses cs s.gloss

theorem stands_nil : Stands multiline [] s ↔ s = closed := by
  constructor
  · intro h
    obtain ⟨e, i, g⟩ := s
    obtain rfl : e = 0 := leavesOpen_nil.1 h.embeddings
    obtain rfl : i = 0 := leavesOpen_nil.1 h.isolates
    obtain ⟨n, hbegun⟩ := h.gloss
    cases g with
    | outside => rfl
    | annotated | annotating => simp [Gloss.begun] at hbegun
  · rintro rfl
    exact ⟨by simp, leavesOpen_nil.2 rfl, leavesOpen_nil.2 rfl, 0, rfl⟩

theorem stands_concat : Stands multiline (cs ++ [c]) s' ↔
    ∃ s, Stands multiline cs s ∧ read multiline s c = .ok s' := by
  have hembeddings (n' : Nat) : LeavesOpen embeddingOpeners '\u202c' (cs ++ [c]) n' ↔ _ :=
    leavesOpen_concat (by decide)
  have hisolates (n' : Nat) : LeavesOpen isolateOpeners '\u2069' (cs ++ [c]) n' ↔ _ :=
    leavesOpen_concat (by decide)
  constructor
  · rintro ⟨hclean, hembedding, hisolate, hgloss⟩
    obtain ⟨hclean, hc⟩ := List.forall_mem_append.1 hclean
    obtain ⟨e, he, hcounts⟩ := (hembeddings _).1 hembedding
    obtain ⟨i, hi, hcounts'⟩ := (hisolates _).1 hisolate
    obtain ⟨g, hg, hadvances⟩ := glosses_concat.1 hgloss
    exact ⟨⟨e, i, g⟩, ⟨hclean, he, hi, hg⟩,
      read_eq_ok_iff.2 ⟨hc c (List.mem_singleton_self c), hcounts, hcounts', hadvances⟩⟩
  · rintro ⟨s, h, hread⟩
    obtain ⟨hc, hcounts, hcounts', hadvances⟩ := read_eq_ok_iff.1 hread
    refine ⟨List.forall_mem_append.2 ⟨h.clean, by simpa using hc⟩, ?_, ?_, ?_⟩
    · exact (hembeddings _).2 ⟨_, h.embeddings, hcounts⟩
    · exact (hisolates _).2 ⟨_, h.isolates, hcounts'⟩
    · exact glosses_concat.2 ⟨_, h.gloss, hadvances⟩

/-- Reading goes through just if the characters leave something open that may be open, and then it
knows what. -/
theorem foldlM_read_eq_ok_iff :
    cs.foldlM (read multiline) closed = .ok s ↔ Stands multiline cs s := by
  induction cs using List.reverseRecOn generalizing s with
  | nil =>
    rw [stands_nil, @eq_comm _ s]
    exact ⟨Except.ok.inj, congrArg Except.ok⟩
  | append_singleton cs c ih =>
    rw [List.foldlM_append, stands_concat, bind_eq_ok]
    simp only [ih, List.foldlM_cons, List.foldlM_nil, bind_pure]

theorem finish_eq_ok_iff : s.finish = .ok () ↔ s = closed := by
  obtain ⟨e, i, g⟩ := s
  simp only [finish, closed, mk.injEq]
  grind

end Marks

theorem check_eq_ok_iff {text : String} :
    check multiline text = .ok () ↔ Marks.Stands multiline text.toList .closed := by
  rw [← Marks.foldlM_read_eq_ok_iff, check]
  split
  · next s hread => rw [Marks.finish_eq_ok_iff, hread, Except.ok.injEq]
  · next fault hread => simp [hread]

end Text

/-- A text passes the check of a field just if it holds no control character but line breaks and tabs
in several lines, its embeddings balance, its isolates balance, whatever stands between them, and its
marks of glosses come in whole groups of anchor, separator and terminator. -/
theorem TextField.check_passes_iff (field : TextField) (multiline : Bool) (text : String) :
    field.check multiline text = .ok () ↔
      (∀ c ∈ text.toList, c.toNat ≤ 0x1f ∨ (0x7f ≤ c.toNat ∧ c.toNat ≤ 0x9f) →
        multiline = true ∧ (c = '\n' ∨ c = '\t')) ∧
      Text.LeavesOpen ['\u202a', '\u202b', '\u202d', '\u202e'] '\u202c' text.toList 0 ∧
      Text.LeavesOpen ['\u2066', '\u2067', '\u2068'] '\u2069' text.toList 0 ∧
      ∃ n, text.toList.filter (· ∈ ['\ufff9', '\ufffa', '\ufffb']) =
        (List.replicate n ['\ufff9', '\ufffa', '\ufffb']).flatten := by
  have hfault : field.check multiline text = .ok () ↔ Text.check multiline text = .ok () := by
    rw [TextField.check]
    cases Text.check multiline text <;> simp [Except.mapError]
  rw [hfault, Text.check_eq_ok_iff]
  constructor
  · rintro ⟨hclean, hembeddings, hisolates, n, hglosses⟩
    exact ⟨hclean, hembeddings, hisolates, n, hglosses.trans (List.append_nil _)⟩
  · rintro ⟨hclean, hembeddings, hisolates, n, hglosses⟩
    exact ⟨hclean, hembeddings, hisolates, n, hglosses.trans (List.append_nil _).symm⟩

/-- An embedding and an isolate may overlap. -/
example : TextField.body.check true "\u202a\u2066\u202c\u2069" = .ok () := by
  decide +kernel

end Noticeboard
