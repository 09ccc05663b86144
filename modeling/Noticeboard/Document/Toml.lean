import Noticeboard.Document.Toml.Scalar
import Noticeboard.Document.Toml.Table

/-!
# Configuration files

Reads the TOML notation: keys with values, one on a line, under the headers of tables. A value that
holds others may hold them up to a fixed depth, and a key has fewer names than that.

Readers that call each other take a bound on the number of calls; twice the length of the text is
enough.
-/

namespace Noticeboard.Toml

/-! ## Keys -/

/-- Values nest less deep than this, and keys have fewer names. -/
def maxDepth : Nat := 80

/-- Characters of a name without quotes. -/
def isNameChar (c : Char) : Bool := c.isAlphanum || c == '-' || c == '_'

/-- One name of a key. -/
def name? : Read String
  | '"' :: cs => (basic? cs).map fun (s, cs) => (String.ofList s, cs)
  | '\'' :: cs => (literal? cs).map fun (s, cs) => (String.ofList s, cs)
  | cs =>
    match cs.takeWhile isNameChar with
    | [] => none
    | s => some (String.ofList s, cs.dropWhile isNameChar)

/-- The names of a key with dots between them. Blanks may stand around each name. -/
def names? : Nat → Read (List String)
  | 0, _ => none
  | fuel + 1, cs =>
    (name? (skip cs)).bind fun (name, cs) =>
      match skip cs with
      | '.' :: cs => (names? fuel cs).map fun (names, cs) => (name :: names, cs)
      | cs => some ([name], cs)

/-- A key. -/
def key? : Read (List String) := names? (maxDepth - 1)

/-! ## Values -/

/-- The document of an inline table. -/
def inline? (pairs : List (List String × Value)) : Option Value :=
  (pairs.foldlM (fun es (key, v) => Entries.put key v .header es) []).map Entries.toValue

mutual

/-- A value. -/
def value? : Nat → Nat → Read Value
  | 0, _, _ => none
  | fuel + 1, depth, cs =>
    match cs with
    | '"' :: _ | '\'' :: _ => (text? cs).map fun (s, cs) => (.ofText (String.ofList s), cs)
    | '[' :: cs =>
      if depth = 0 then none else (items? fuel (depth - 1) cs).map fun (vs, cs) => (.array vs, cs)
    | '\x7b' :: cs =>
      if depth = 0 then none
      else
        match skip cs with
        | '\x7d' :: cs => some (.object [], cs)
        | cs => (pairs? fuel (depth - 1) cs).bind fun (ps, cs) => (inline? ps).map (·, cs)
    | cs => scalar? cs

/-- The values of a row up to its closing bracket. A comma may stand behind the last one. -/
def items? : Nat → Nat → Read (List Value)
  | 0, _, _ => none
  | fuel + 1, depth, cs =>
    (skipLines? false cs).bind fun
      | ']' :: cs => some ([], cs)
      | cs =>
        (value? fuel depth cs).bind fun (v, cs) =>
          (skipLines? false cs).bind fun
            | ',' :: cs => (items? fuel depth cs).map fun (vs, cs) => (v :: vs, cs)
            | ']' :: cs => some ([v], cs)
            | _ => none

/-- Keys with values on one line, up to the closing brace. -/
def pairs? : Nat → Nat → Read (List (List String × Value))
  | 0, _, _ => none
  | fuel + 1, depth, cs =>
    (key? cs).bind fun (key, cs) =>
      match cs with
      | '=' :: cs =>
        (value? fuel depth (skip cs)).bind fun (v, cs) =>
          match skip cs with
          | ',' :: cs => (pairs? fuel depth cs).map fun (ps, cs) => ((key, v) :: ps, cs)
          | '\x7d' :: cs => some ([(key, v)], cs)
          | _ => none
      | _ => none

end

/-! ## Files -/

/-- What has been read of a file. -/
structure Draft where
  root : Entries
  /-- The path of the last header. -/
  path : List String

namespace Draft

/-- Opens the table of a header with a function that takes its last name. -/
def under (d : Draft) (f : String → Entries → Option Entries) (path : List String) : Option Draft :=
  path.getLast?.bind fun name =>
    (Entries.change false (fun _ => f name) path.dropLast .header d.root).map fun root =>
      { root, path }

/-- Puts a value under a key of the table of the last header. -/
def put (d : Draft) (key : List String) (v : Value) : Option Draft :=
  (Entries.change false (Entries.put key v) d.path .header d.root).map fun root => { d with root }

end Draft

/-- A header with its brackets. -/
def header? (d : Draft) (cs : List Char) : Option (Draft × List Char) :=
  match cs with
  | '[' :: '[' :: cs =>
    (key? cs).bind fun (path, cs) =>
      (expect? [']', ']'] cs).bind fun cs => (d.under Entries.openNext path).map (·, cs)
  | '[' :: cs =>
    (key? cs).bind fun (path, cs) =>
      (expect? [']'] cs).bind fun cs => (d.under Entries.openTable path).map (·, cs)
  | _ => none

/-- A key with its value. -/
def pair? (d : Draft) (cs : List Char) : Option (Draft × List Char) :=
  (key? cs).bind fun (key, cs) =>
    (expect? ['='] cs).bind fun cs =>
      (value? (2 * cs.length + 2) (maxDepth - 1) (skip cs)).bind fun (v, cs) =>
        (d.put key v).map (·, cs)

/-- The lines of a file one after another. -/
def lines? : Nat → Draft → List Char → Option Draft
  | 0, _, _ => none
  | fuel + 1, d, cs =>
    match skip cs with
    | [] => some d
    | '[' :: cs => (header? d ('[' :: cs)).bind fun (d, cs) => (lineEnd? cs).bind (lines? fuel d)
    | '#' :: cs => (lineEnd? ('#' :: cs)).bind (lines? fuel d)
    | cs =>
      match lineBreak? cs with
      | some cs => lines? fuel d cs
      | none => (pair? d cs).bind fun (d, cs) => (lineEnd? cs).bind (lines? fuel d)

/-- The document that a whole file writes. A mark of the byte order at the front does not count. -/
def parse? (text : String) : Option Value :=
  let cs := match text.toList with
    | '\ufeff' :: cs => cs
    | cs => cs
  (lines? (cs.length + 1) { root := [], path := [] } cs).map (·.root.toValue)

end Noticeboard.Toml
