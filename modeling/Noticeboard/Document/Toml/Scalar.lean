import Noticeboard.Document.Reading
import Noticeboard.Document.Value

/-!
# Scalars of configuration files

Text stands between quotes, on one line or over several, with or without escapes. A number or a date
is a word of letters, digits and a few marks, which is read as a whole: the word of a whole number
may be in base two, eight, ten or sixteen, and single underscores may stand between digits.
-/

namespace Noticeboard.Toml

/-! ## Lines -/

/-- Characters that may stand in a comment, and in text unless they end it. -/
def isPlain (c : Char) : Bool := c == '\t' || (' ' ≤ c && c != '\x7f')

/-- Blanks within a line. -/
def isBlank (c : Char) : Bool := c == ' ' || c == '\t'

/-- What follows the blanks at the front. -/
def skip (cs : List Char) : List Char := cs.dropWhile isBlank

/-- What follows a line break, if one stands at the front. -/
def lineBreak? : List Char → Option (List Char)
  | '\n' :: cs => some cs
  | '\r' :: '\n' :: cs => some cs
  | _ => none

/-- What follows a line break at the front, or everything. -/
def skipBreak (cs : List Char) : List Char := (lineBreak? cs).getD cs

/-- What follows the rest of a line, on which only a comment may stand. -/
def lineEnd? (cs : List Char) : Option (List Char) :=
  let cs := match skip cs with
    | '#' :: cs => cs.dropWhile isPlain
    | cs => cs
  if cs.isEmpty then some [] else lineBreak? cs

/-- What follows blanks, line breaks and comments; `comment` tells whether it starts in one. -/
def skipLines? (comment : Bool) : List Char → Option (List Char)
  | '\n' :: cs => skipLines? false cs
  | '\r' :: '\n' :: cs => skipLines? false cs
  | c :: cs =>
    if comment then if isPlain c then skipLines? true cs else none
    else if c == '#' then skipLines? true cs
    else if isBlank c then skipLines? false cs
    else some (c :: cs)
  | [] => if comment then none else some []

/-! ## Text -/

/-- Puts a character in front of the text that is read. -/
def push (c : Char) (r : Option (List Char × List Char)) : Option (List Char × List Char) :=
  r.map fun (text, cs) => (c :: text, cs)

/-- The character with a code point, if there is one. -/
def char? (n : Nat) : Option Char := if n.isValidChar then some (Char.ofNat n) else none

/-- What a backslash and a letter stand for. -/
def escaped? : Char → Option Char
  | 'b' => some '\x08'
  | 't' => some '\t'
  | 'n' => some '\n'
  | 'f' => some '\x0c'
  | 'r' => some '\r'
  | '"' => some '"'
  | '\\' => some '\\'
  | _ => none

/-- Text with escapes, up to its closing quote. -/
def basic? : Read (List Char)
  | '"' :: cs => some ([], cs)
  | '\\' :: 'u' :: a :: b :: c :: d :: cs =>
    ((Hex.number? [a, b, c, d]).bind char?).bind fun x => push x (basic? cs)
  | '\\' :: 'U' :: a :: b :: c :: d :: e :: f :: g :: h :: cs =>
    ((Hex.number? [a, b, c, d, e, f, g, h]).bind char?).bind fun x => push x (basic? cs)
  | '\\' :: e :: cs => (escaped? e).bind fun x => push x (basic? cs)
  | c :: cs => if isPlain c then push c (basic? cs) else none
  | [] => none

/-- Text without escapes, up to its closing quote. -/
def literal? : Read (List Char)
  | '\'' :: cs => some ([], cs)
  | c :: cs => if isPlain c then push c (literal? cs) else none
  | [] => none

/-- Up to two further quotes behind three that end a text over several lines; they belong to the
text. -/
def closing (quote : Char) (cs : List Char) : List Char × List Char :=
  let extra := (cs.take 2).takeWhile (· == quote)
  (extra, cs.drop extra.length)

/-- Whether a line ends here but for blanks. -/
def atLineEnd (cs : List Char) : Bool := (lineBreak? (skip cs)).isSome

/-- Text with escapes over several lines, up to three quotes. A backslash at the end of a line takes
away the line break and all blanks and line breaks behind it, which `trim` says is going on. -/
def basicLines? (trim : Bool) : Read (List Char)
  | '"' :: '"' :: '"' :: cs => some (closing '"' cs)
  | '\\' :: 'u' :: a :: b :: c :: d :: cs =>
    ((Hex.number? [a, b, c, d]).bind char?).bind fun x => push x (basicLines? false cs)
  | '\\' :: 'U' :: a :: b :: c :: d :: e :: f :: g :: h :: cs =>
    ((Hex.number? [a, b, c, d, e, f, g, h]).bind char?).bind fun x => push x (basicLines? false cs)
  | '\\' :: e :: cs =>
    if atLineEnd (e :: cs) then basicLines? true (e :: cs)
    else (escaped? e).bind fun x => push x (basicLines? false cs)
  | '\n' :: cs => if trim then basicLines? true cs else push '\n' (basicLines? false cs)
  | '\r' :: '\n' :: cs => if trim then basicLines? true cs else push '\n' (basicLines? false cs)
  | c :: cs =>
    if trim && isBlank c then basicLines? true cs
    else if isPlain c && c != '\\' then push c (basicLines? false cs)
    else none
  | [] => none

/-- Text without escapes over several lines, up to three quotes. -/
def literalLines? : Read (List Char)
  | '\'' :: '\'' :: '\'' :: cs => some (closing '\'' cs)
  | '\n' :: cs => push '\n' (literalLines? cs)
  | '\r' :: '\n' :: cs => push '\n' (literalLines? cs)
  | c :: cs => if isPlain c then push c (literalLines? cs) else none
  | [] => none

/-- Text of any kind, from its opening quote. A line break right behind three opening quotes does
not belong to the text. -/
def text? : Read (List Char)
  | '"' :: '"' :: '"' :: cs => basicLines? false (skipBreak cs)
  | '"' :: cs => basic? cs
  | '\'' :: '\'' :: '\'' :: cs => literalLines? (skipBreak cs)
  | '\'' :: cs => literal? cs
  | _ => none

/-! ## Words -/

/-- Characters of numbers, dates and truth values. -/
def isWordChar (c : Char) : Bool :=
  c.isAlphanum || c == '+' || c == '-' || c == '_' || c == '.' || c == ':'

/-- The digits of a word in which single underscores may stand between digits. -/
def digits? (isDigit : Char → Bool) : List Char → Option (List Char)
  | [] => none
  | [c] => if isDigit c then some [c] else none
  | c :: '_' :: cs => if isDigit c then (digits? isDigit cs).map (c :: ·) else none
  | c :: cs => if isDigit c then (digits? isDigit cs).map (c :: ·) else none

/-- Whether a word starts with a minus sign, and the word without its sign. -/
def sign : List Char → Bool × List Char
  | '+' :: cs => (false, cs)
  | '-' :: cs => (true, cs)
  | cs => (false, cs)

/-! ### Whole numbers -/

/-- A number that fits a signed word of eight bytes. -/
def inRange? (n : Int) : Option Value :=
  if Int64.minValue.toInt ≤ n && n ≤ Int64.maxValue.toInt then some (.whole n) else none

/-- A whole number in a base, behind the mark of the base. -/
def based? (base : Nat) (cs : List Char) : Option Value :=
  (digits? (fun c => (Hex.value? c).any (· < base)) cs).bind fun ds => inRange? (numeral base ds)

/-- The digits of a number in base ten; a zero in front stands alone. -/
def decimal? (cs : List Char) : Option (List Char) :=
  (digits? Char.isDigit cs).bind fun ds =>
    if ds.head? = some '0' && ds.length ≠ 1 then none else some ds

/-- A whole number. -/
def whole? : List Char → Option Value
  | '0' :: 'x' :: cs => based? 16 cs
  | '0' :: 'o' :: cs => based? 8 cs
  | '0' :: 'b' :: cs => based? 2 cs
  | cs =>
    let (negative, cs) := sign cs
    (decimal? cs).bind fun ds =>
      inRange? (if negative then -(numeral 10 ds : Int) else numeral 10 ds)

/-! ### Fractions -/

/-- Whether `m * 10 ^ e` is beyond all numbers of double precision after rounding. -/
def isInfinite (m : Nat) (e : Int) : Bool :=
  let size := (Nat.toDigits 10 m).length + e
  let bound := 1 <<< 1024 - 1 <<< 970
  m != 0 && 308 < size && (310 < size || bound * Nat.pow 10 (-e).toNat ≤ m * Nat.pow 10 e.toNat)

/-- The exponent of a number, zero if there is none, and whether there is one. -/
def exponent? : List Char → Option (Int × Bool)
  | [] => some (0, false)
  | c :: cs =>
    if c == 'e' || c == 'E' then
      let (negative, cs) := sign cs
      (digits? Char.isDigit cs).map fun ds =>
        (if negative then -(numeral 10 ds : Int) else numeral 10 ds, true)
    else none

/-- A number with a point or an exponent. Only a negative one may be too large. -/
def fraction? (word : List Char) : Option Value :=
  let (negative, cs) := sign word
  if cs = ['i', 'n', 'f'] || cs = ['n', 'a', 'n'] then some .fraction
  else
    let inner := fun c : Char => c.isDigit || c == '_'
    (decimal? (cs.takeWhile inner)).bind fun ds =>
      let (point, cs) := match cs.dropWhile inner with
        | '.' :: cs => (true, cs)
        | cs => (false, cs)
      let decimals := if point then digits? Char.isDigit (cs.takeWhile inner) else some []
      decimals.bind fun decimals =>
        (exponent? (if point then cs.dropWhile inner else cs)).bind fun (e, power) =>
          let tooLarge := isInfinite (numeral 10 (ds ++ decimals)) (e - decimals.length)
          if (point || power) && (negative || !tooLarge) then some .fraction else none

/-! ### Dates -/

/-- A number of so many digits between bounds, and what follows it. -/
def field? (width low high : Nat) (cs : List Char) : Option (Nat × List Char) :=
  let ds := cs.take width
  let n := numeral 10 ds
  if ds.length = width && ds.all Char.isDigit && low ≤ n && n ≤ high then some (n, cs.drop width)
  else none

/-- The days of a month. -/
def daysIn (year month : Nat) : Nat :=
  if month = 2 then
    if year % 4 = 0 && (year % 100 ≠ 0 || year % 400 = 0) then 29 else 28
  else if month = 4 || month = 6 || month = 9 || month = 11 then 30
  else 31

/-- What follows a date. -/
def date? (cs : List Char) : Option (List Char) := do
  let (year, cs) ← field? 4 0 9999 cs
  let (month, cs) ← field? 2 1 12 (← expect? ['-'] cs)
  let (_, cs) ← field? 2 1 (daysIn year month) (← expect? ['-'] cs)
  return cs

/-- What follows the fraction of a second, which may be missing. -/
def secondFraction? : List Char → Option (List Char)
  | '.' :: c :: cs => if c.isDigit then some (cs.dropWhile Char.isDigit) else none
  | '.' :: [] => none
  | cs => some cs

/-- What follows a time of day. -/
def time? (cs : List Char) : Option (List Char) := do
  let (_, cs) ← field? 2 0 23 cs
  let (_, cs) ← field? 2 0 59 (← expect? [':'] cs)
  let (_, cs) ← field? 2 0 60 (← expect? [':'] cs)
  secondFraction? cs

/-- Whether a time of day may stand this far from universal time. -/
def isOffset : List Char → Bool
  | [] => true
  | ['Z'] | ['z'] => true
  | c :: cs =>
    (c == '+' || c == '-') &&
      ((field? 2 0 23 cs).bind fun (_, cs) => (expect? [':'] cs).bind (field? 2 0 59)).any
        (·.2.isEmpty)

/-- Whether a word is a time of day with an offset or without. -/
def isTime (cs : List Char) : Bool := (time? cs).any isOffset

/-- A date, a time of day, or both. -/
def moment? (word : List Char) : Option Value :=
  let holds : Bool := match date? word with
    | some [] => true
    | some ('T' :: cs) | some ('t' :: cs) => isTime cs
    | some _ => false
    | none => (time? word).any (·.isEmpty)
  if holds then some .moment else none

/-! ### Words in context -/

/-- The value that a word writes. -/
def word? (word : List Char) : Option Value :=
  if word = ['t', 'r', 'u', 'e'] then some (.bool true)
  else if word = ['f', 'a', 'l', 's', 'e'] then some (.bool false)
  else ((whole? word).or (fraction? word)).or (moment? word)

/-- A number, date or truth value. A date and a time of day may have a blank between them. -/
def scalar? : Read Value := fun cs =>
  let word := cs.takeWhile isWordChar
  let rest := cs.dropWhile isWordChar
  match date? word, rest with
  | some [], ' ' :: c :: cs =>
    if c.isDigit then
      if isTime ((c :: cs).takeWhile isWordChar) then some (.moment, (c :: cs).dropWhile isWordChar)
      else none
    else some (.moment, rest)
  | _, _ => (word? word).map (·, rest)

end Noticeboard.Toml
