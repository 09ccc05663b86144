import Noticeboard.Disk
import Noticeboard.State.SnapshotFile

/-!
# Snapshot stores

A snapshot store owns the file of a snapshot as long as it is open: a lock file beside the file
keeps a second store out. A snapshot is saved under another name first and then put in place, so
that the file holds either the old snapshot or the new one.
-/

namespace Noticeboard

/-- Why a store cannot do its work. -/
inductive StoreError where
  /-- A file cannot be read or written. -/
  | io
  /-- The file does not hold a snapshot. -/
  | undecodable
  /-- Another store holds the file. -/
  | locked
deriving DecidableEq

namespace Disk

/-- The lock file beside a file. -/
def lockOf (path : String) : String := path ++ ".lock"

/-- The file that a snapshot is written to first. -/
def draftOf (path : String) : String := path ++ ".tmp"

/-- What a lock file holds. -/
def lockMark (d : Disk) : Bytes := (toString d.process ++ "\n").toUTF8.data.toList

/-- Opens the store of a path and makes the folders on the way. A lock file that nobody holds does
not count. -/
def openStore (d : Disk) (path : String) : Disk × Except StoreError Unit :=
  match d.makeWay path with
  | (d, .error _) => (d, .error .io)
  | (d, .ok ()) =>
    match d.locateFile (lockOf path) with
    | .error _ => (d, .error .io)
    | .ok lock =>
      if d.held.contains lock then (d, .error .locked)
      else ({ d with files := d.files.insert lock d.lockMark, held := d.held.insert lock }, .ok ())

/-- Closes the store of a path and takes its lock file away. -/
def closeStore (d : Disk) (path : String) : Disk :=
  match d.locateFile (lockOf path) with
  | .error _ => d
  | .ok lock => d.remove lock

/-- Saves a snapshot in place of the one before. If it cannot be put in place, it stays under the
other name. -/
def save (d : Disk) (path : String) (p : Snapshot) : Disk × Except StoreError Unit :=
  match d.write (draftOf path) p.toBytes with
  | .error _ => (d, .error .io)
  | .ok d =>
    match d.move (draftOf path) path with
    | .error _ => (d, .error .io)
    | .ok d => (d, .ok ())

/-- The snapshot that was saved, if there is one. -/
def load (d : Disk) (path : String) : Except StoreError (Option Snapshot) :=
  match d.read path with
  | .error .missing => .ok none
  | .error .refused => .error .io
  | .ok bytes =>
    match Snapshot.ofBytes? bytes with
    | some p => .ok (some p)
    | none => .error .undecodable

end Disk

end Noticeboard
