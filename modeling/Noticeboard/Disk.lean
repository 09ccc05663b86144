import Std.Data.ExtTreeMap
import Std.Data.ExtTreeSet
import Noticeboard.Bytes

/-!
# Disks

Files in folders, found by paths. A `Path` is a list of steps to take one after the other: `..` goes
up, and every other step goes to what has that name. A `Place` is where such a walk arrives. Two
paths name the same file when they arrive at the same place, and all steps but the last need a
folder to start from.
-/

namespace Noticeboard

/-- A place among folders: the names from it outward to the folder that paths start from. At the
outer end, `..` stands for one folder further out, and `/` for the outermost one. -/
abbrev Place := List String

namespace Place

/-- The folder that a place lies in. -/
def up : Place → Place
  | [] => [".."]
  | ".." :: p => ".." :: ".." :: p
  | ["/"] => ["/"]
  | _ :: p => p

/-- Whether a place is the folder that paths start from or one further out. These are always
there. -/
def isOuter (p : Place) : Bool := p == ["/"] || p.all (· == "..")

/-- Where one step leads. A name has at most 255 bytes. -/
def step? (p : Place) (s : String) : Option Place :=
  if s = ".." then some p.up
  else if s.utf8ByteSize ≤ 255 then some (s :: p)
  else none

end Place

/-! ## Paths -/

/-- A path that was read. -/
structure Path where
  /-- Where it starts. -/
  start : Place
  /-- Its names and `..`, in order. -/
  steps : List String
  /-- Whether it is good for a folder only, because nothing or `.` follows its last `/`. -/
  folderOnly : Bool
deriving DecidableEq

namespace Path

/-- Whether a part of a path stays where it is: nothing, or `.`. -/
def isIdle (s : String) : Bool := s.isEmpty || s == "."

/-- Reads a path. -/
def ofText (text : String) : Path where
  start := if text.startsWith "/" then ["/"] else []
  steps := (text.splitOn "/").filter (!isIdle ·)
  folderOnly := (text.splitOn "/").getLast?.any isIdle

/-- A path less its last step, as it is written. -/
def folderOf (text : String) : String :=
  let way := (text.splitOn "/").reverse.dropWhile isIdle
  "/".intercalate ((way.drop 1).dropWhile isIdle).reverse

/-- Whether a text is fit for a path: less than 4096 bytes and no null character. -/
def isText (text : String) : Bool := text.utf8ByteSize < 4096 && !text.contains '\x00'

end Path

/-! ## The disk -/

/-- Files and folders, and which files are held by a store. -/
structure Disk where
  files : Std.ExtTreeMap Place Bytes
  /-- All folders but the outer ones. -/
  folders : Std.ExtTreeSet Place
  /-- The places of the lock files of open stores. -/
  held : Std.ExtTreeSet Place
  /-- The number of the running process, which lock files hold. -/
  process : Nat
deriving DecidableEq

/-- Why a path cannot be used. -/
inductive DiskError where
  /-- Nothing is there. -/
  | missing
  /-- The path is unfit, or a file is where a folder has to be, or the other way round. -/
  | refused
deriving DecidableEq

namespace Disk

/-- A disk without files. -/
def empty (process : Nat) : Disk := ⟨∅, ∅, ∅, process⟩

/-- Whether a folder is at a place. -/
def isFolder (d : Disk) (p : Place) : Bool := p.isOuter || d.folders.contains p

/-- Demands a folder. -/
def needFolder (d : Disk) (p : Place) : Except DiskError Unit :=
  if d.isFolder p then .ok ()
  else if d.files.contains p then .error .refused
  else .error .missing

/-! ## Walking -/

/-- Takes steps. Each one starts from a folder; what the last one leads to need not be there. -/
def walk (d : Disk) (p : Place) : List String → Except DiskError Place
  | [] => .ok p
  | s :: steps => do
    d.needFolder p
    match p.step? s with
    | none => .error .refused
    | some p => d.walk p steps

/-- The place that a path leads to. -/
def locate (d : Disk) (text : String) : Except DiskError Place := do
  let path := Path.ofText text
  if !Path.isText text then .error .refused
  let p ← d.walk path.start path.steps
  if path.folderOnly then d.needFolder p
  return p

/-- The place of the file that a path leads to, whether or not it is there. -/
def locateFile (d : Disk) (text : String) : Except DiskError Place := do
  let p ← d.locate text
  if d.isFolder p then .error .refused else return p

/-! ## Files -/

/-- Whether something is there under a path. -/
def exists? (d : Disk) (text : String) : Bool :=
  (d.locate text).toOption.any fun p => d.isFolder p || d.files.contains p

/-- The contents of a file. -/
def read (d : Disk) (text : String) : Except DiskError Bytes := do
  let p ← d.locateFile text
  match d.files[p]? with
  | none => .error .missing
  | some bytes => return bytes

/-- Writes a file, into a folder that is there. -/
def write (d : Disk) (text : String) (bytes : Bytes) : Except DiskError Disk := do
  let p ← d.locateFile text
  return { d with files := d.files.insert p bytes }

/-- Takes a file away. Nobody holds it any more. -/
def remove (d : Disk) (p : Place) : Disk :=
  { d with files := d.files.erase p, held := d.held.erase p }

/-- Puts the file of one path in place of the file of another. Nobody holds it there. -/
def move (d : Disk) (text target : String) : Except DiskError Disk := do
  let p ← d.locateFile text
  let q ← d.locateFile target
  let bytes ← d.read text
  let d := (d.remove p).remove q
  return { d with files := d.files.insert q bytes }

/-! ## Folders -/

/-- Makes the folder of every step that has none. If one cannot be made, those before it stay. -/
def makeFolders (d : Disk) (p : Place) : List String → Disk × Except DiskError Unit
  | [] => (d, .ok ())
  | s :: steps =>
    match p.step? s with
    | none => (d, .error .refused)
    | some p =>
      if d.files.contains p then (d, .error .refused)
      else if d.isFolder p then d.makeFolders p steps
      else makeFolders { d with folders := d.folders.insert p } p steps

/-- Makes the folders on the way to a path. -/
def makeWay (d : Disk) (text : String) : Disk × Except DiskError Unit :=
  let path := Path.ofText (Path.folderOf text)
  if Path.isText (Path.folderOf text) then d.makeFolders path.start path.steps
  else (d, .error .refused)

end Disk

end Noticeboard
