/-
# Disks

A disk is a tree of names: directories hold files, symbolic links and directories.  Names and paths
are strings of bytes, since nothing makes a name on disk a text.

* `Node.find?` is the view of a tree: what stands at a place;
* `Node.put` and `Node.remove` change what stands there;
* `Disk` is a tree, with the place of the directory that relative paths start from.
-/

namespace Ownership.Disk

/-! ## 1. Trees -/

/-- A name in a directory. -/
abbrev Name := List UInt8

/-- A path, names with slashes between them. -/
abbrev Path := List UInt8

/-- A place in a tree: the names on the way to it from the top. -/
abbrev Place := List Name

/-- A text as bytes. -/
def bytesOf (s : String) : List UInt8 := s.toUTF8.data.toList

/-- What stands at a place. -/
inductive Node where
  | file (content : ByteArray)
  | link (target : Path)
  | directory (entries : List (Name × Node))

namespace Node

/-- The directory without entries. -/
def emptyDirectory : Node := directory []

/-- Holds of a directory. -/
def isDirectory : Node → Bool
  | directory _ => true
  | file _ | link _ => false

/-- The entries of a directory; nothing else has any. -/
def entries : Node → List (Name × Node)
  | directory es => es
  | file _ | link _ => []

/-- What a directory holds under a name. -/
def child? (n : Node) (name : Name) : Option Node := n.entries.lookup name

/-- What stands at a place below a node. -/
def find? : Node → Place → Option Node
  | n, [] => some n
  | n, x :: xs => (n.child? x).bind fun c => find? c xs

/-! ## 2. Changes -/

/-- The entries without the one under a name. -/
def dropEntry (es : List (Name × Node)) (name : Name) : List (Name × Node) :=
  es.filter fun e => e.1 != name

/-- The entries with a node under a name, in place of what was there. -/
def setEntry (es : List (Name × Node)) (name : Name) (n : Node) : List (Name × Node) :=
  (name, n) :: dropEntry es name

/-- The tree with `new` at a place; directories that are missing on the way are made. -/
def put : Node → Place → Node → Node
  | _, [], new => new
  | n, x :: xs, new =>
    directory (setEntry n.entries x (put ((n.child? x).getD emptyDirectory) xs new))

/-- The tree without what stands at a place; the top stays. -/
def remove : Node → Place → Node
  | n, [] => n
  | n, x :: xs =>
    match n.child? x with
    | none => n
    | some c =>
      directory (if xs.isEmpty then dropEntry n.entries x else setEntry n.entries x (remove c xs))

end Node

end Ownership.Disk

namespace Ownership

/-! ## 3. Disks -/

/-- A tree, and the place of the directory that relative paths start from. -/
structure Disk where
  root : Disk.Node
  current : Disk.Place

namespace Disk

/-- The name of the working directory on a fresh disk. -/
def workName : Name := bytesOf "work"

/-- The disk with nothing on it but the working directory. -/
def fresh : Disk := ⟨.directory [(workName, Node.emptyDirectory)], [workName]⟩

end Disk

end Ownership
