/-!
# Marks in running text

Text may not hold control characters, and the invisible marks in it must pair up:

* embeddings and overrides (four openers, one closer) balance like brackets, and so do isolates
  (three openers, one closer), each kind on its own;
* glosses (interlinear annotations) come as anchor, separator and terminator, in this order and
  never nested.

`check` reads the text once from left to right and reports the first fault it meets; what is still
open at the end is reported last, balance before glosses.
-/

namespace Noticeboard.Text

/-- What can be wrong with a text. -/
inductive Fault where
  | control (code : Nat)
  | unbalanced
  | unpaired
deriving DecidableEq

/-- The C0 and C1 controls and DEL. -/
def isControl (c : Char) : Bool := c.toNat < 0x20 || (0x7f ≤ c.toNat && c.toNat ≤ 0x9f)

/-- Controls that lay out text of several lines. -/
def isLayout (c : Char) : Bool := c == '\n' || c == '\t'

/-- Marks that open an embedding or an override. -/
def opensEmbedding (c : Char) : Bool :=
  c == '\u202a' || c == '\u202b' || c == '\u202d' || c == '\u202e'

/-- The mark that closes the last embedding or override. -/
def closesEmbedding (c : Char) : Bool := c == '\u202c'

/-- Marks that open an isolate. -/
def opensIsolate (c : Char) : Bool := c == '\u2066' || c == '\u2067' || c == '\u2068'

/-- The mark that closes the last isolate. -/
def closesIsolate (c : Char) : Bool := c == '\u2069'

/-- Where a text stands between the marks of a gloss. -/
inductive Gloss where
  | outside
  /-- After the anchor: the annotated text. -/
  | annotated
  /-- After the separator: the gloss itself. -/
  | annotating
deriving DecidableEq

/-- The marks of a gloss. -/
def isGlossMark (c : Char) : Bool := c == '\ufff9' || c == '\ufffa' || c == '\ufffb'

/-- The standing after one mark of a gloss, if the mark may come here. -/
def Gloss.next? : Gloss → Char → Option Gloss
  | outside, '\ufff9' => some annotated
  | annotated, '\ufffa' => some annotating
  | annotating, '\ufffb' => some outside
  | _, _ => none

/-- What is open at some point of a text. -/
structure Marks where
  embeddings : Nat
  isolates : Nat
  gloss : Gloss
deriving DecidableEq

namespace Marks

/-- Nothing is open. -/
def closed : Marks := ⟨0, 0, .outside⟩

/-- Reads one character. -/
def read (multiline : Bool) (s : Marks) (c : Char) : Except Fault Marks :=
  if isControl c && !(multiline && isLayout c) then .error (.control c.toNat)
  else if opensEmbedding c then .ok { s with embeddings := s.embeddings + 1 }
  else if closesEmbedding c then
    if s.embeddings = 0 then .error .unbalanced
    else .ok { s with embeddings := s.embeddings - 1 }
  else if opensIsolate c then .ok { s with isolates := s.isolates + 1 }
  else if closesIsolate c then
    if s.isolates = 0 then .error .unbalanced
    else .ok { s with isolates := s.isolates - 1 }
  else if isGlossMark c then
    match s.gloss.next? c with
    | some a => .ok { s with gloss := a }
    | none => .error .unpaired
  else .ok s

/-- Checks that nothing is left open. -/
def finish (s : Marks) : Except Fault Unit :=
  if s.embeddings ≠ 0 ∨ s.isolates ≠ 0 then .error .unbalanced
  else if s.gloss ≠ .outside then .error .unpaired
  else .ok ()

end Marks

/-- Checks a text; line breaks and tabs are allowed in one of several lines. -/
def check (multiline : Bool) (text : String) : Except Fault Unit :=
  match text.toList.foldlM (Marks.read multiline) Marks.closed with
  | .ok s => s.finish
  | .error fault => .error fault

end Noticeboard.Text
