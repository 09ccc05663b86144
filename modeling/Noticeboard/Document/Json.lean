import Noticeboard.Document.Reading
import Noticeboard.Document.Value
import Noticeboard.Text.Hex

/-!
# JSON

Reads the JSON notation: one value between blanks, and nothing else. Text may not hold control
characters, and a character beyond the first plane may be escaped as a pair of surrogates.

Readers that call each other take a bound on the number of calls; twice the length of the text is
enough.
-/

namespace Noticeboard.Json

/-- The blanks between the parts of a value. -/
def isBlank (c : Char) : Bool := c == ' ' || c == '\n' || c == '\t' || c == '\r'

/-- What follows the blanks at the front. -/
def skip (cs : List Char) : List Char := cs.dropWhile isBlank

/-! ## Numbers -/

/-- At least one digit. -/
def digits? : Read (List Char) := fun cs =>
  match cs.takeWhile Char.isDigit with
  | [] => none
  | ds => some (ds, cs.dropWhile Char.isDigit)

/-- The digits before the point; a zero stands alone. -/
def whole? : Read (List Char)
  | '0' :: cs => some (['0'], cs)
  | cs => digits? cs

/-- Whether there are digits after a point, and what follows them. -/
def decimals? : Read Bool
  | '.' :: cs => (digits? cs).map fun (_, cs) => (true, cs)
  | cs => some (false, cs)

/-- What follows the sign of an exponent. -/
def skipSign : List Char → List Char
  | '+' :: cs | '-' :: cs => cs
  | cs => cs

/-- Whether there is an exponent, and what follows it. -/
def exponent? : Read Bool
  | 'e' :: cs | 'E' :: cs => (digits? (skipSign cs)).map fun (_, cs) => (true, cs)
  | cs => some (false, cs)

/-- A number without its sign: the value of its digits, if it has neither point nor exponent. -/
def magnitude? : Read (Option Nat) := fun cs =>
  (whole? cs).bind fun (ds, cs) => (decimals? cs).bind fun (point, cs) =>
    (exponent? cs).map fun (power, cs) =>
      (if point || power then none else some (numeral 10 ds), cs)

/-- A number. Zero with a minus sign is no whole number. -/
def number? : Read Value
  | '-' :: cs => (magnitude? cs).map fun
    | (some (n + 1), cs) => (.whole (Int.negSucc n), cs)
    | (_, cs) => (.fraction, cs)
  | cs => (magnitude? cs).map fun
    | (some n, cs) => (.whole n, cs)
    | (none, cs) => (.fraction, cs)

/-! ## Text -/

/-- What a backslash and a letter stand for. -/
def escaped? : Char → Option Nat
  | '"' => some 0x22
  | '\\' => some 0x5c
  | '/' => some 0x2f
  | 'b' => some 0x8
  | 'f' => some 0xc
  | 'n' => some 0xa
  | 'r' => some 0xd
  | 't' => some 0x9
  | _ => none

/-- The code points up to the closing quote; an escape may stand for half of a character. -/
def points? : Read (List Nat)
  | '"' :: cs => some ([], cs)
  | '\\' :: 'u' :: a :: b :: c :: d :: cs =>
    (Hex.number? [a, b, c, d]).bind fun n => (points? cs).map fun (ps, cs) => (n :: ps, cs)
  | '\\' :: e :: cs => (escaped? e).bind fun n => (points? cs).map fun (ps, cs) => (n :: ps, cs)
  | c :: cs => if c.toNat < 0x20 then none else (points? cs).map fun (ps, cs) => (c.toNat :: ps, cs)
  | [] => none

/-- Whether a code point is the first half of a character. -/
def isHigh (n : Nat) : Bool := 0xd800 ≤ n && n < 0xdc00

/-- Whether a code point is the second half of a character. -/
def isLow (n : Nat) : Bool := 0xdc00 ≤ n && n < 0xe000

/-- The characters that code points make up, if no half is alone. -/
def join? : List Nat → Option (List Char)
  | [] => some []
  | [n] => if isHigh n || isLow n then none else some [Char.ofNat n]
  | m :: n :: ns =>
    if isHigh m then
      if isLow n then
        (join? ns).map (Char.ofNat (0x10000 + 0x400 * (m - 0xd800) + (n - 0xdc00)) :: ·)
      else none
    else if isLow m then none
    else (join? (n :: ns)).map (Char.ofNat m :: ·)

/-- Text behind its opening quote. -/
def text? : Read (Option String) := fun cs =>
  (points? cs).map fun (ps, cs) => ((join? ps).map String.ofList, cs)

/-! ## Values -/

mutual

/-- A value. -/
def value? : Nat → Read Value
  | 0, _ => none
  | fuel + 1, cs =>
    match skip cs with
    | '\x7b' :: cs =>
      match skip cs with
      | '\x7d' :: cs => some (.object [], cs)
      | cs => (members? fuel cs).map fun (es, cs) => (.object es, cs)
    | '[' :: cs =>
      match skip cs with
      | ']' :: cs => some (.array [], cs)
      | cs => (items? fuel cs).map fun (vs, cs) => (.array vs, cs)
    | '"' :: cs => (text? cs).map fun (s, cs) => (.text s, cs)
    | 't' :: cs => (expect? ['r', 'u', 'e'] cs).map (.bool true, ·)
    | 'f' :: cs => (expect? ['a', 'l', 's', 'e'] cs).map (.bool false, ·)
    | 'n' :: cs => (expect? ['u', 'l', 'l'] cs).map (.null, ·)
    | cs => number? cs

/-- Values between commas up to the closing bracket. -/
def items? : Nat → Read (List Value)
  | 0, _ => none
  | fuel + 1, cs =>
    (value? fuel cs).bind fun (v, cs) =>
      match skip cs with
      | ',' :: cs => (items? fuel cs).map fun (vs, cs) => (v :: vs, cs)
      | ']' :: cs => some ([v], cs)
      | _ => none

/-- Names with values between commas up to the closing brace. -/
def members? : Nat → Read (List (Option String × Value))
  | 0, _ => none
  | fuel + 1, cs =>
    match skip cs with
    | '"' :: cs =>
      (text? cs).bind fun (name, cs) =>
        match skip cs with
        | ':' :: cs =>
          (value? fuel cs).bind fun (v, cs) =>
            match skip cs with
            | ',' :: cs => (members? fuel cs).map fun (es, cs) => ((name, v) :: es, cs)
            | '\x7d' :: cs => some ([(name, v)], cs)
            | _ => none
        | _ => none
    | _ => none

end

/-- The value that a whole text writes. -/
def parse? (text : String) : Option Value :=
  let cs := text.toList
  (value? (2 * cs.length + 2) cs).bind fun (v, cs) => if (skip cs).isEmpty then some v else none

end Noticeboard.Json
