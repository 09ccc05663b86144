import Mathlib.Data.List.Induction
import Mathlib.Data.Nat.Digits.Defs
import Noticeboard.MessageId

/-!
# Written ids

`Hex.number` is the number that hexadecimal digits of either case stand for, `Token.Spells` lists the
ways in which the 32 digits of a token may be written, and `MessageId.LaidOut` says how a text has to
be laid out to name a message. Reading accepts just the texts that are laid out so and gives the id with
the digits found there. The written form of an id is laid out so with the digits of the id itself, hence
reading gives the id back (`MessageId.parse_iff_laidOut`).
-/

namespace Noticeboard

/-! ## Digits -/

namespace Hex

variable {cs : List Char} {c : Char} {n width : Nat}

/-- The sixteen digits in lower case. -/
def alphabet : List Char :=
  ['0', '1', '2', '3', '4', '5', '6', '7', '8', '9', 'a', 'b', 'c', 'd', 'e', 'f']

/-- A hexadecimal digit of either case. -/
def IsDigit (c : Char) : Prop := c.toLower ∈ alphabet

instance (c : Char) : Decidable (IsDigit c) := inferInstanceAs (Decidable (c.toLower ∈ alphabet))

/-- The number that digits stand for, the most significant one first. -/
def number (cs : List Char) : Nat :=
  Nat.ofDigits 16 (cs.reverse.map fun c => alphabet.idxOf c.toLower)

/-- So many digits and nothing else. -/
structure Row (width : Nat) (cs : List Char) : Prop where
  length : cs.length = width
  digits : ∀ c ∈ cs, IsDigit c

/-- Of the digits in the alphabet, and of nothing else, there is a value. -/
theorem value?_eq (c : Char) :
    value? c = if c.toLower ∈ alphabet then some (alphabet.idxOf c.toLower) else none := by
  by_cases hascii : c.toNat < 128
  · have hall : ∀ n < 128, value? (Char.ofNat n) = if (Char.ofNat n).toLower ∈ alphabet then
        some (alphabet.idxOf (Char.ofNat n).toLower) else none := by decide +kernel
    simpa only [Char.ofNat_toNat] using hall c.toNat hascii
  · have hlarge {d : Char} (hd : d.toNat < 128) : ¬ c ≤ d := by
      rw [Char.le_def, UInt32.le_iff_toNat_le]
      show ¬ c.toNat ≤ d.toNat
      omega
    have hlower : c.toLower = c := dif_neg fun h => hlarge (d := 'Z') (by decide) h.2
    have hnot : c ∉ alphabet := by
      have hsmall : ∀ d ∈ alphabet, d.toNat < 128 := by simp [alphabet]
      exact fun hc => hascii (hsmall c hc)
    rw [hlower, if_neg hnot, value?, if_neg fun h => hlarge (by decide) h.2,
      if_neg fun h => hlarge (by decide) h.2, if_neg fun h => hlarge (by decide) h.2]

theorem value?_eq_some_iff : value? c = some n ↔ IsDigit c ∧ n = alphabet.idxOf c.toLower := by
  rw [value?_eq, IsDigit]
  split <;> simp [*, eq_comm]

theorem number_concat (cs : List Char) (c : Char) :
    number (cs ++ [c]) = 16 * number cs + alphabet.idxOf c.toLower := by
  simp [number, Nat.ofDigits_cons, Nat.add_comm]

theorem number?_eq_some_iff : number? cs = some n ↔ (∀ c ∈ cs, IsDigit c) ∧ n = number cs := by
  induction cs using List.reverseRecOn generalizing n with
  | nil => simp [number?, number, eq_comm]
  | append_singleton cs c ih =>
    rw [number?_concat, number_concat, List.forall_mem_append]
    simp only [Option.bind_eq_some_iff, Option.map_eq_some_iff, ih, value?_eq_some_iff,
      List.forall_mem_singleton]
    constructor
    · rintro ⟨_, ⟨hcs, rfl⟩, _, ⟨hc, rfl⟩, rfl⟩
      exact ⟨⟨hcs, hc⟩, rfl⟩
    · rintro ⟨⟨hcs, hc⟩, rfl⟩
      exact ⟨_, ⟨hcs, rfl⟩, _, ⟨hc, rfl⟩, rfl⟩

theorem Row.number_lt (h : Row width cs) : number cs < 2 ^ (4 * width) := by
  have hdigits : ∀ d ∈ cs.reverse.map fun c => alphabet.idxOf c.toLower, d < 16 := by
    intro d hd
    obtain ⟨c, hc, rfl⟩ := List.mem_map.1 hd
    exact List.idxOf_lt_length_of_mem (h.digits c (List.mem_reverse.1 hc))
  have hlt := Nat.ofDigits_lt_base_pow_length (by decide) hdigits
  rw [List.length_map, List.length_reverse, h.length] at hlt
  rwa [Nat.pow_mul]

/-- The digits of a number that fits stand for it. -/
theorem row_digits (width : Nat) (h : n < 2 ^ (4 * width)) :
    Row width (digits width n) ∧ number (digits width n) = n := by
  rw [Nat.pow_mul] at h
  obtain ⟨hdigits, hn⟩ := number?_eq_some_iff.1 (number?_digits width n h)
  exact ⟨⟨length_digits width n, hdigits⟩, hn.symm⟩

/-- Just so many digits are read as bits, and the bits are what they stand for. -/
theorem bits_eq_some_iff (width : Nat) (bits : BitVec (4 * width)) :
    (if cs.length = width then (number? cs).map (BitVec.ofNat (4 * width)) else none) = some bits ↔
      Row width cs ∧ bits.toNat = number cs := by
  rw [Option.ite_none_right_eq_some, Option.map_eq_some_iff]
  simp only [number?_eq_some_iff]
  constructor
  · rintro ⟨hlength, _, ⟨hdigits, rfl⟩, rfl⟩
    have hrow : Row width cs := ⟨hlength, hdigits⟩
    exact ⟨hrow, (BitVec.toNat_ofNat _ _).trans (Nat.mod_eq_of_lt hrow.number_lt)⟩
  · rintro ⟨hrow, hbits⟩
    refine ⟨hrow.length, _, ⟨hrow.digits, rfl⟩, ?_⟩
    rw [← hbits, BitVec.ofNat_toNat, BitVec.setWidth_eq]

end Hex

/-! ## Tokens -/

namespace Token

variable {ds cs body : List Char} {t : Token} {ns : List Nat}

/-- The digits stand in groups of eight, four, four, four and twelve, joined by hyphens. -/
def Grouped (ds cs : List Char) : Prop :=
  ∃ a b c d e : List Char, [a, b, c, d, e].map List.length = [8, 4, 4, 4, 12] ∧
    ds = [a, b, c, d, e].flatten ∧ cs = ['-'].intercalate [a, b, c, d, e]

/-- The ways in which the digits of a token may be written. -/
inductive Spells (ds : List Char) : List Char → Prop
  | bare : Spells ds ds
  | grouped {body : List Char} (h : Grouped ds body) : Spells ds body
  | braced {body : List Char} (h : Grouped ds body) : Spells ds ('\x7b' :: body ++ ['\x7d'])
  /-- Behind the name of the resource scheme in letters of either case. -/
  | named {body scheme : List Char} (hscheme : scheme.map Char.toLower = "urn:uuid:".toList)
    (h : Grouped ds body) : Spells ds (scheme ++ body)

theorem ofDigits?_eq_some_iff : ofDigits? cs = some t ↔
    Hex.Row 32 cs ∧ t.bits.toNat = Hex.number cs := by
  refine Iff.trans ?_ (Hex.bits_eq_some_iff 32 t.bits)
  obtain ⟨bits⟩ := t
  rw [ofDigits?]
  split <;> simp

/-! ### Groups -/

theorem unhyphenate?_eq_some_iff : unhyphenate? ns cs = some ds ↔
    ∃ (groups : List (List Char)) (last : List Char), groups.map List.length = ns ∧
      ds = groups.flatten ++ last ∧ cs = ['-'].intercalate (groups ++ [last]) := by
  induction ns generalizing cs ds with
  | nil =>
    simp [unhyphenate?, eq_comm]
  | cons n ns ih =>
    have hjoin (group last : List Char) (groups : List (List Char)) :
        ['-'].intercalate (group :: (groups ++ [last])) =
          group ++ '-' :: ['-'].intercalate (groups ++ [last]) := by
      rw [List.intercalate_cons_of_ne_nil (by simp), List.append_assoc, List.singleton_append]
    constructor
    · intro h
      rw [unhyphenate?] at h
      split at h
      · next rest hrest =>
        obtain ⟨ds', hds', rfl⟩ := Option.map_eq_some_iff.1 h
        obtain ⟨groups, last, hlengths, rfl, rfl⟩ := ih.1 hds'
        have hlong : n < cs.length := by
          rw [← Nat.sub_pos_iff_lt, ← List.length_drop, hrest]
          exact Nat.succ_pos _
        refine ⟨cs.take n :: groups, last, ?_, ?_, ?_⟩
        · rw [List.map_cons, hlengths, List.length_take_of_le hlong.le]
        · rw [List.flatten_cons, List.append_assoc]
        · rw [List.cons_append, hjoin, ← hrest, List.take_append_drop]
      · cases h
    · rintro ⟨groups, last, hlengths, rfl, rfl⟩
      obtain ⟨group, groups, rfl, rfl, hrest⟩ := List.map_eq_cons_iff.1 hlengths
      have hread : unhyphenate? ns (['-'].intercalate (groups ++ [last])) =
          some (groups.flatten ++ last) := ih.2 ⟨groups, last, hrest, rfl, rfl⟩
      rw [List.cons_append, hjoin, unhyphenate?, List.drop_left]
      simp [hread]

theorem grouped_iff (hds : ds.length = 32) :
    Grouped ds cs ↔ unhyphenate? groups cs = some ds := by
  rw [unhyphenate?_eq_some_iff]
  constructor
  · rintro ⟨a, b, c, d, e, hlengths, rfl, rfl⟩
    have hsplit : [a, b, c, d].map List.length ++ [e.length] = groups ++ [12] := hlengths
    exact ⟨[a, b, c, d], e, (List.append_inj' hsplit rfl).1, by simp, rfl⟩
  · rintro ⟨l, e, hlengths, rfl, rfl⟩
    obtain ⟨a, l, rfl, ha, hlengths⟩ := List.map_eq_cons_iff.1 hlengths
    obtain ⟨b, l, rfl, hb, hlengths⟩ := List.map_eq_cons_iff.1 hlengths
    obtain ⟨c, l, rfl, hc, hlengths⟩ := List.map_eq_cons_iff.1 hlengths
    obtain ⟨d, l, rfl, hd, hlengths⟩ := List.map_eq_cons_iff.1 hlengths
    obtain rfl := List.map_eq_nil_iff.1 hlengths
    have he : e.length = 12 := by
      simp [ha, hb, hc, hd] at hds
      omega
    exact ⟨a, b, c, d, e, by simp [ha, hb, hc, hd, he], by simp, rfl⟩

/-- What is grouped starts with its first digit, and has four hyphens besides the digits. -/
theorem Grouped.exists_cons (h : Grouped ds cs) :
    ∃ c rest, c ∈ ds ∧ cs = c :: rest ∧ rest.length = 35 := by
  obtain ⟨a, b, c, d, e, hlengths, rfl, rfl⟩ := h
  simp only [List.map_cons, List.map_nil, List.cons.injEq, and_true] at hlengths
  obtain ⟨ha, hb, hc, hd, he⟩ := hlengths
  obtain ⟨x, a, rfl⟩ := List.exists_cons_of_length_eq_add_one ha
  refine ⟨x, a ++ '-' :: ['-'].intercalate [b, c, d, e], by simp, by simp [List.intercalate], ?_⟩
  simp [List.intercalate] at ha ⊢
  omega

/-! ### Forms -/

/-- What starts with a digit is unwrapped from braces, from behind the name of the scheme or from
nothing. -/
theorem unwrap?_eq_some_iff {c : Char} {rest : List Char} (hc : Hex.IsDigit c) :
    unwrap? cs = some (c :: rest) ↔ cs = c :: rest ∨ cs = '\x7b' :: (c :: rest) ++ ['\x7d'] ∨
      ∃ scheme : List Char, scheme.map Char.toLower = "urn:uuid:".toList ∧
        cs = scheme ++ c :: rest := by
  have hscheme : "urn:uuid:".toList = scheme := by decide
  have hbrace : c ≠ '\x7b' := by
    rintro rfl
    exact absurd hc (by decide)
  have hletter : c.toLower ≠ 'u' := by
    intro he
    rw [Hex.IsDigit, he] at hc
    exact absurd hc (by decide)
  constructor
  · intro h
    unfold unwrap? at h
    split at h
    · next tail =>
      rw [Option.ite_none_right_eq_some, List.getLast?_eq_some_iff, Option.some.injEq] at h
      obtain ⟨⟨ys, rfl⟩, hbody⟩ := h
      rw [List.dropLast_concat] at hbody
      exact .inr (.inl (by rw [hbody]; rfl))
    · split at h
      · next hnamed =>
        refine .inr (.inr ⟨cs.take scheme.length, hscheme ▸ hnamed, ?_⟩)
        rw [← Option.some.inj h, List.take_append_drop]
      · exact .inl (Option.some.inj h)
  · rintro (rfl | rfl | ⟨name, hname, rfl⟩)
    · rw [unwrap?]
      · rw [if_neg]
        intro he
        exact hletter (List.cons.inj he).1
      · exact fun _ he => hbrace (List.cons.inj he).1
    · rw [List.cons_append, unwrap?, List.getLast?_concat, if_pos rfl, List.dropLast_concat]
    · rw [hscheme] at hname
      have hlength : name.length = scheme.length := by rw [← List.length_map Char.toLower, hname]
      rw [unwrap?]
      · rw [← hlength, List.take_left, List.drop_left, if_pos hname]
      · intro tail he
        cases name with
        | nil => cases hname
        | cons x name =>
          obtain ⟨rfl, -⟩ := List.cons.inj he
          exact absurd (List.cons.inj hname).1 (by decide)

/-- Only the bare digits are as many characters as there are digits. -/
theorem Spells.length_eq_iff (h : Spells ds cs) (hds : ds.length = 32) : cs.length = 32 ↔ cs = ds := by
  refine ⟨fun hcs => ?_, fun heq => heq ▸ hds⟩
  cases h with
  | bare => rfl
  | grouped hgrouped | braced hgrouped | named _ hgrouped =>
    obtain ⟨c, rest, -, rfl, hrest⟩ := hgrouped.exists_cons
    simp [hrest] at hcs

/-- What is not written bare is grouped when it is unwrapped. -/
theorem Spells.exists_unwrap? (h : Spells ds cs) (hrow : Hex.Row 32 ds) (hne : cs ≠ ds) :
    ∃ body, Grouped ds body ∧ unwrap? cs = some body := by
  cases h with
  | bare => exact absurd rfl hne
  | grouped hgrouped =>
    obtain ⟨c, rest, hc, rfl, -⟩ := hgrouped.exists_cons
    exact ⟨_, hgrouped, (unwrap?_eq_some_iff (hrow.digits c hc)).2 (.inl rfl)⟩
  | braced hgrouped =>
    obtain ⟨c, rest, hc, rfl, -⟩ := hgrouped.exists_cons
    exact ⟨_, hgrouped, (unwrap?_eq_some_iff (hrow.digits c hc)).2 (.inr (.inl rfl))⟩
  | named hscheme hgrouped =>
    obtain ⟨c, rest, hc, rfl, -⟩ := hgrouped.exists_cons
    exact ⟨_, hgrouped,
      (unwrap?_eq_some_iff (hrow.digits c hc)).2 (.inr (.inr ⟨_, hscheme, rfl⟩))⟩

/-- Reading takes the forms of thirty-two digits, and nothing else. -/
theorem ofText?_eq_some_iff {text : String} : ofText? text = some t ↔
    ∃ ds, Spells ds text.toList ∧ Hex.Row 32 ds ∧ t.bits.toNat = Hex.number ds := by
  rw [ofText?]
  split
  · next hlength =>
    rw [ofDigits?_eq_some_iff]
    constructor
    · intro h
      exact ⟨text.toList, .bare, h⟩
    · rintro ⟨ds, hspells, hrow, hbits⟩
      obtain rfl := (hspells.length_eq_iff hrow.length).1 hlength
      exact ⟨hrow, hbits⟩
  · next hlength =>
    simp only [Option.bind_eq_some_iff, ofDigits?_eq_some_iff]
    constructor
    · rintro ⟨body, hbody, ds, hds, hrow, hbits⟩
      refine ⟨ds, ?_, hrow, hbits⟩
      have hgrouped := (grouped_iff hrow.length).2 hds
      obtain ⟨c, rest, hc, rfl, -⟩ := hgrouped.exists_cons
      rcases (unwrap?_eq_some_iff (hrow.digits c hc)).1 hbody with heq | heq | ⟨name, hname, heq⟩
      · rw [heq]
        exact .grouped hgrouped
      · rw [heq]
        exact .braced hgrouped
      · rw [heq]
        exact .named hname hgrouped
    · rintro ⟨ds, hspells, hrow, hbits⟩
      have hne : text.toList ≠ ds := fun heq => hlength ((hspells.length_eq_iff hrow.length).2 heq)
      obtain ⟨body, hgrouped, hbody⟩ := hspells.exists_unwrap? hrow hne
      exact ⟨body, hbody, ds, (grouped_iff hrow.length).1 hgrouped, hrow, hbits⟩

/-! ### The written form -/

theorem unhyphenate?_hyphenate (h : ns.sum ≤ ds.length) :
    unhyphenate? ns (hyphenate ns ds) = some ds := by
  induction ns generalizing ds with
  | nil => rfl
  | cons n ns ih =>
    rw [List.sum_cons] at h
    have hlength : (ds.take n).length = n := List.length_take_of_le (by omega)
    have hrest := @ih (ds.drop n) (by rw [List.length_drop]; omega)
    rw [hyphenate, unhyphenate?, List.drop_left' hlength]
    simp only [hrest, List.take_left' hlength, Option.map_some, List.take_append_drop]

theorem not_mem_hyphenate {c : Char} (hc : c ≠ '-') (h : c ∉ ds) : c ∉ hyphenate ns ds := by
  induction ns generalizing ds with
  | nil => exact h
  | cons n ns ih =>
    rw [hyphenate, List.mem_append, List.mem_cons, not_or, not_or]
    exact ⟨fun hmem => h (List.mem_of_mem_take hmem), hc,
      ih fun hmem => h (List.mem_of_mem_drop hmem)⟩

/-- The written form of a token groups its digits. -/
theorem grouped_digits (t : Token) : Grouped t.digits (hyphenate groups t.digits) := by
  have hlength : t.digits.length = 32 := Hex.length_digits 32 t.bits.toNat
  rw [grouped_iff hlength]
  exact unhyphenate?_hyphenate (by rw [hlength]; decide)

end Token

/-! ## Ids -/

theorem IdentityId.ofDigits?_eq_some_iff {cs : List Char} {a : IdentityId} :
    ofDigits? cs = some a ↔ Hex.Row 64 cs ∧ a.bits.toNat = Hex.number cs := by
  refine Iff.trans ?_ (Hex.bits_eq_some_iff 64 a.bits)
  obtain ⟨bits⟩ := a
  rw [ofDigits?]
  split <;> simp

namespace MessageId

variable {text : String} {id : MessageId} {token author : List Char}

/-- A text that names a message: digits of a token in one of the forms, the first at sign, and the digits
of an author. -/
structure LaidOut (text : String) (token author : List Char) : Prop where
  split : ∃ written, Token.Spells token written ∧ '@' ∉ written ∧
    text.toList = written ++ '@' :: author
  token_row : Hex.Row 32 token
  author_row : Hex.Row 64 author

theorem splitAt?_eq_some_iff {cs : List Char} {before after : String} :
    splitAt? cs = some (before, after) ↔
      '@' ∉ before.toList ∧ cs = before.toList ++ '@' :: after.toList := by
  rw [splitAt?]
  constructor
  · intro h
    split at h
    · next c rest hrest =>
      obtain ⟨rfl, rfl⟩ := Prod.mk.inj (Option.some.inj h)
      have hhead := List.head?_dropWhile_not (· ≠ '@') cs
      rw [hrest, List.head?_cons] at hhead
      obtain rfl : c = '@' := by simpa using hhead
      rw [String.toList_ofList, String.toList_ofList, ← hrest]
      refine ⟨fun hmem => ?_, List.takeWhile_append_dropWhile.symm⟩
      exact absurd (List.all_eq_true.1 List.all_takeWhile _ hmem) (by decide)
    · cases h
  · rintro ⟨hbefore, rfl⟩
    have hpass : ∀ c ∈ before.toList, decide (c ≠ '@') = true := fun c hc =>
      decide_eq_true fun he => hbefore (he ▸ hc)
    rw [List.dropWhile_append_of_pos hpass, List.takeWhile_append_of_pos hpass]
    simp

theorem parse_eq_ok_iff : parse text = .ok id ↔ ∃ token author, LaidOut text token author ∧
    id.token.bits.toNat = Hex.number token ∧ id.author.bits.toNat = Hex.number author := by
  constructor
  · intro h
    rw [parse] at h
    split at h
    · cases h
    · next before after hsplit =>
      obtain ⟨hbefore, htext⟩ := splitAt?_eq_some_iff.1 hsplit
      split at h
      · cases h
      · next t ht =>
        obtain ⟨token, hspells, htoken, hbits⟩ := Token.ofText?_eq_some_iff.1 ht
        rw [IdentityId.parse] at h
        split at h
        · next a ha =>
          obtain ⟨hauthor, hbits'⟩ := IdentityId.ofDigits?_eq_some_iff.1 ha
          cases h
          exact ⟨token, after.toList, ⟨⟨before.toList, hspells, hbefore, htext⟩, htoken, hauthor⟩,
            hbits, hbits'⟩
        · cases h
  · rintro ⟨token, author, h, htoken, hauthor⟩
    obtain ⟨written, hspells, hwritten, htext⟩ := h.split
    have hsplit : splitAt? text.toList = some (String.ofList written, String.ofList author) := by
      rw [splitAt?_eq_some_iff, String.toList_ofList, String.toList_ofList]
      exact ⟨hwritten, htext⟩
    have hread : Token.ofText? (String.ofList written) = some id.token := by
      rw [Token.ofText?_eq_some_iff, String.toList_ofList]
      exact ⟨token, hspells, h.token_row, htoken⟩
    have hread' : IdentityId.ofDigits? author = some id.author :=
      IdentityId.ofDigits?_eq_some_iff.2 ⟨h.author_row, hauthor⟩
    rw [parse, hsplit]
    simp only [hread, IdentityId.parse, String.toList_ofList, hread']
    rfl

theorem laidOut_toText (id : MessageId) : LaidOut id.toText id.token.digits id.author.digits := by
  have htoken := (Hex.row_digits 32 id.token.bits.isLt).1
  have hauthor := (Hex.row_digits 64 id.author.bits.isLt).1
  refine ⟨⟨Token.hyphenate Token.groups id.token.digits, .grouped id.token.grouped_digits, ?_, ?_⟩,
    htoken, hauthor⟩
  · exact Token.not_mem_hyphenate (by decide) fun hmem =>
      absurd (htoken.digits _ hmem) (by decide)
  · simp [toText, Token.toText, IdentityId.toText]

/-- Reading the written form of an id gives the id back, so that no two ids are written alike. A text is
read as an id just if it is laid out as one, and then the bits of the id are the digits in the text. -/
theorem parse_iff_laidOut :
    (∀ id : MessageId, parse id.toText = .ok id) ∧ Function.Injective toText ∧
    (∀ text, (∃ id, parse text = .ok id) ↔ ∃ token author, LaidOut text token author) ∧
    ∀ text token author, LaidOut text token author → ∃ id, parse text = .ok id ∧
      id.token.bits.toNat = Hex.number token ∧ id.author.bits.toNat = Hex.number author := by
  have hback (id : MessageId) : parse id.toText = .ok id := by
    refine parse_eq_ok_iff.2 ⟨_, _, laidOut_toText id, ?_, ?_⟩
    · exact (Hex.row_digits 32 id.token.bits.isLt).2.symm
    · exact (Hex.row_digits 64 id.author.bits.isLt).2.symm
  have hread {text : String} {token author : List Char} (h : LaidOut text token author) :
      ∃ id, parse text = .ok id ∧
        id.token.bits.toNat = Hex.number token ∧ id.author.bits.toNat = Hex.number author := by
    refine ⟨⟨⟨BitVec.ofNatLT _ h.author_row.number_lt⟩, ⟨BitVec.ofNatLT _ h.token_row.number_lt⟩⟩,
      parse_eq_ok_iff.2 ⟨token, author, h, rfl, rfl⟩, rfl, rfl⟩
  refine ⟨hback, fun id id' heq => ?_, fun text => ?_, fun text token author h => hread h⟩
  · have hid := hback id
    rw [heq, hback] at hid
    exact (Except.ok.inj hid).symm
  · constructor
    · rintro ⟨id, hid⟩
      obtain ⟨token, author, h, -⟩ := parse_eq_ok_iff.1 hid
      exact ⟨token, author, h⟩
    · rintro ⟨token, author, h⟩
      obtain ⟨id, hid, -⟩ := hread h
      exact ⟨id, hid⟩

/-- A text with the name of the scheme in capitals is read, though it has none of the forms with that
name in lower case. -/
theorem parse_scheme_in_capitals :
    let text := "URN:UUID:67e55044-10b1-426f-9247-bb680e5fe0c8@" ++
      "0123456789abcdef0123456789abcdef0123456789abcdef0123456789abcdef"
    (∃ id, parse text = .ok id) ∧
      ¬ ∃ written token author : List Char, text.toList = written ++ '@' :: author ∧
        '@' ∉ written ∧ Hex.Row 32 token ∧ Hex.Row 64 author ∧
        (written = token ∨ Token.Grouped token written ∨
          ∃ body, Token.Grouped token body ∧
            (written = '\x7b' :: body ++ ['\x7d'] ∨ written = "urn:uuid:".toList ++ body)) := by
  intro text
  have hfirst : text.toList.head? = some 'U' := by decide +kernel
  have hread : (parse text).isOk = true := by decide +kernel
  constructor
  · cases hid : parse text with
    | ok id => exact ⟨id, rfl⟩
    | error _ => simp [hid, Except.isOk, Except.toBool] at hread
  · rintro ⟨written, token, author, htext, -, htoken, -, hspells⟩
    have hdigit : 'U' ∉ token := fun hmem => absurd (htoken.digits _ hmem) (by decide)
    rw [htext] at hfirst
    rcases hspells with rfl | hgrouped | ⟨body, -, rfl | rfl⟩
    · cases written with
      | nil => simp at hfirst
      | cons c rest =>
        obtain rfl : c = 'U' := by simpa using hfirst
        exact hdigit List.mem_cons_self
    · obtain ⟨c, rest, hc, rfl, -⟩ := hgrouped.exists_cons
      obtain rfl : c = 'U' := by simpa using hfirst
      exact hdigit hc
    · simp at hfirst
    · simp at hfirst

end MessageId

end Noticeboard
