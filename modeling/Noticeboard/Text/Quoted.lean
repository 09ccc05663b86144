import Noticeboard.Text.Hex
import Noticeboard.Text.Printable

/-!
# Quoted text

Text is shown between double quotes with everything that would not print as itself escaped. The
quote and the backslash take a backslash, four controls have letters of their own, and any other
character that is unprintable or extends its neighbour is written by its code point.
-/

namespace Noticeboard.Text

/-- The code point in as many hexadecimal digits as it needs. -/
def shortHex (n : Nat) : List Char :=
  Nat.toDigits 16 n

/-- A character as it stands inside quotes. -/
def escape (c : Char) : List Char :=
  match c with
  | '\x00' => ['\\', '0']
  | '\t' => ['\\', 't']
  | '\r' => ['\\', 'r']
  | '\n' => ['\\', 'n']
  | '\\' => ['\\', '\\']
  | '"' => ['\\', '"']
  | _ =>
    if isExtending c || isUnprintable c then
      ['\\', 'u', '\x7b'] ++ shortHex c.toNat ++ ['\x7d']
    else [c]

/-- Text between quotes. -/
def quoted (s : String) : String :=
  String.ofList ('"' :: s.toList.flatMap escape ++ ['"'])

end Noticeboard.Text
