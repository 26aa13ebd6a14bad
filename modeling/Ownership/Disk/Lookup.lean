/-
# Looking up a path

A path is looked up name by name, from the top of the disk or from the working directory.  Symbolic
links on the way are followed, and so is one at the end unless the link itself is wanted; after too
many of them the lookup is given up.

* `lookup` says where a path leads, or where it breaks off;
* `DiskError.message` is the error in words, with the number that the system gives it.
-/
import Ownership.Disk

namespace Ownership

/-! ## 1. Errors -/

/-- What can go wrong with a file on disk. -/
inductive DiskError where
  | missing
  | notDirectory
  | isDirectory
  | nameTooLong
  | tooManyLinks
  | notText
  deriving DecidableEq, Repr

/-- The error in words. -/
def DiskError.message : DiskError → String
  | .missing => "No such file or directory (os error 2)"
  | .notDirectory => "Not a directory (os error 20)"
  | .isDirectory => "Is a directory (os error 21)"
  | .nameTooLong => "File name too long (os error 36)"
  | .tooManyLinks => "Too many levels of symbolic links (os error 40)"
  | .notText => "stream did not contain valid UTF-8"

namespace Disk

/-! ## 2. Pieces of a path -/

/-- The byte between names. -/
def slash : UInt8 := 47

/-- The pieces of a path between slashes. -/
def pieces (p : Path) : List Name := p.splitOn slash

/-- Holds of a piece that leads nowhere else: nothing, or a point. -/
def isHere (x : Name) : Bool := x == [] || x == bytesOf "."

/-- Holds of the piece that leads one directory up. -/
def isUp (x : Name) : Bool := x == bytesOf ".."

/-- The greatest length of a name. -/
def maxName : Nat := 255

/-- The greatest length of a path. -/
def maxPath : Nat := 4095

/-- How many links a lookup may follow. -/
def maxLinks : Nat := 40

/-! ## 3. Lookup -/

/-- How far a lookup gets without following a link. -/
inductive Advance where
  /-- It gets to the end. -/
  | done (place : Place)
  /-- The first of the pieces is missing in the directory at a place. -/
  | broken (place : Place) (rest : List Name)
  /-- There is a link in the directory at a place, with pieces behind it. -/
  | onto (place : Place) (target : Path) (rest : List Name)
  | refused (e : DiskError)
  deriving DecidableEq, Repr

/-- Goes on from a place along the pieces up to the next link; one at the end counts only if
`through` holds. -/
def advance (root : Node) (through : Bool) : Place → List Name → Advance
  | place, [] => .done place
  | place, x :: xs =>
    match root.find? place with
    | some (.directory es) =>
      if isHere x then advance root through place xs
      else if isUp x then advance root through place.dropLast xs
      else if x.length > maxName then .refused .nameTooLong
      else
        match es.lookup x with
        | none => .broken place (x :: xs)
        | some (.link target) =>
          if xs.isEmpty && !through then .done (place ++ [x]) else .onto place target xs
        | some _ => advance root through (place ++ [x]) xs
    | _ => .refused .notDirectory

/-- Where a path leads: to a place, or into a directory in which the first of some pieces is
missing. -/
inductive Whereabouts where
  | found (place : Place)
  | broken (place : Place) (rest : List Name)
  deriving DecidableEq, Repr

/-- The place that a path starts from, given the directory it is relative to. -/
def startOf (place : Place) (p : Path) : Place := if p.head? = some slash then [] else place

/-- Goes on from a place along the pieces, following at most as many links as given. -/
def follow (root : Node) (through : Bool) :
    Nat → Place → List Name → Except DiskError Whereabouts
  | links, place, xs =>
    match advance root through place xs with
    | .done place => .ok (.found place)
    | .broken place rest => .ok (.broken place rest)
    | .refused e => .error e
    | .onto place target rest =>
      match links with
      | 0 => .error .tooManyLinks
      | n + 1 => follow root through n (startOf place target) (pieces target ++ rest)

/-- Where a path leads; a link at its end is followed only if `through` holds. -/
def lookup (d : Disk) (p : Path) (through : Bool) : Except DiskError Whereabouts :=
  if p.isEmpty then .error .missing
  else if p.length > maxPath then .error .nameTooLong
  else follow d.root through maxLinks (startOf d.current p) (pieces p)

/-- What stands where a path leads. -/
def nodeAt (d : Disk) (p : Path) (through : Bool) : Except DiskError Node := do
  match ← d.lookup p through with
  | .found place =>
    match d.root.find? place with
    | some n => .ok n
    | none => .error .missing
  | .broken .. => .error .missing

/-! ## 4. Reading -/

/-- Holds of a path that leads to a file. -/
def isFile (d : Disk) (p : Path) : Bool :=
  match d.nodeAt p true with
  | .ok (.file _) => true
  | _ => false

/-- How many bytes the file has that a path leads to; directories count as empty. -/
def size (d : Disk) (p : Path) : Except DiskError Nat := do
  match ← d.nodeAt p true with
  | .file content => return content.size
  | .link _ | .directory _ => return 0

/-- The text of the file that a path leads to. -/
def readText (d : Disk) (p : Path) : Except DiskError String := do
  match ← d.nodeAt p true with
  | .file content =>
    match String.fromUTF8? content with
    | some text => return text
    | none => throw .notText
  | .link _ | .directory _ => throw .isDirectory

end Disk

end Ownership
