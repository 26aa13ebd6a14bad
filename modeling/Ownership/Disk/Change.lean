/-
# Changing a disk

What sets the scene on a disk: files, directories and links are written, with the directories on the
way to them, and taken away again.

* `write`, `makeDirectory` and `makeLink` put something where a path leads;
* `remove` takes away what is there.
-/
import Ownership.Disk.Lookup

namespace Ownership.Disk

/-- The tree with all directories that pieces name from a place on, and the place that they lead
to. -/
def makeWay : Node → Place → List Name → Node × Place
  | root, place, [] => (root, place)
  | root, place, x :: xs =>
    if isHere x then makeWay root place xs
    else if isUp x then makeWay root place.dropLast xs
    else
      let next := place ++ [x]
      let made := if (root.find? next).isSome then root else root.put next Node.emptyDirectory
      makeWay made next xs

/-- The disk with `new` where pieces lead from a place on. -/
def putBelow (d : Disk) (place : Place) (rest : List Name) (new : Node) : Disk :=
  let (root, target) := makeWay d.root place rest
  { d with root := root.put target new }

/-- Holds of the place of a directory. -/
def isDirectoryAt (d : Disk) (place : Place) : Bool :=
  ((d.root.find? place).map Node.isDirectory).getD false

/-- Writes a file, over one that is there. -/
def write (d : Disk) (p : Path) (content : ByteArray) : Except DiskError Disk := do
  match ← d.lookup p true with
  | .broken place rest => return d.putBelow place rest (.file content)
  | .found place =>
    if d.isDirectoryAt place then throw .isDirectory
    return d.putBelow place [] (.file content)

/-- Makes a directory, unless one is there. -/
def makeDirectory (d : Disk) (p : Path) : Except DiskError Disk := do
  match ← d.lookup p true with
  | .broken place rest => return { d with root := (makeWay d.root place rest).1 }
  | .found place =>
    if d.isDirectoryAt place then return d
    throw .notDirectory

/-- Makes a symbolic link, in place of what is there. -/
def makeLink (d : Disk) (p target : Path) : Except DiskError Disk := do
  match ← d.lookup p false with
  | .broken place rest => return d.putBelow place rest (.link target)
  | .found place => return d.putBelow place [] (.link target)

/-- Removes a file, a link by itself, or a directory with all it holds. -/
def remove (d : Disk) (p : Path) : Except DiskError Disk := do
  match ← d.lookup p false with
  | .broken .. => throw .missing
  | .found place => return { d with root := d.root.remove place }

end Ownership.Disk
