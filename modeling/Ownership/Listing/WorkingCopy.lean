/-
# Listings of a working copy

The files of a working copy are all that is not a directory under its root, symbolic links included,
except for what lies in a directory of version control.

* `Node.leaves` are the places of those files below a directory;
* `Node.firstFar?` is the first directory too far down to be opened by its path;
* `Listing.ofDisk` lists a working copy, or says why it cannot be listed;
* `Tree` is a repository whose files can be listed, spelled out or on disk.
-/
import Ownership.Disk.Lookup
import Ownership.Listing
import Ownership.Text.Shown

namespace Ownership

/-- The directories that belong to version control. -/
def skippedDirectories : List String := [".git"]

namespace Disk.Node

/-! ## 1. Walking a directory -/

/-- Holds of a directory that belongs to version control. -/
def isSkipped (x : Name) (n : Node) : Bool :=
  n.isDirectory && (skippedDirectories.map bytesOf).contains x

mutual

/-- The places below a node of all that is no directory, except for what is skipped. -/
def leaves : Node → List Place
  | file _ | link _ => [[]]
  | directory es => leavesIn es

/-- The places of all that is no directory, below the entries of a directory. -/
def leavesIn : List (Name × Node) → List Place
  | [] => []
  | (x, n) :: es => (if isSkipped x n then [] else n.leaves.map fun p => x :: p) ++ leavesIn es

end

mutual

/-- The place of the first directory below a node that is too far down to be opened, when a path to
an entry of the node has `room` bytes left for the entry; what is skipped is not opened. -/
def firstFar? : Nat → Node → Option Place
  | _, file _ | _, link _ => none
  | room, directory es => firstFarIn? room es

/-- The place of the first directory below the entries of a directory that is too far down to be
opened. -/
def firstFarIn? : Nat → List (Name × Node) → Option Place
  | _, [] => none
  | room, (x, n) :: es =>
    let below :=
      if !n.isDirectory || isSkipped x n then none
      else if room < x.length then some []
      else n.firstFar? (room - x.length - 1)
    (below.map fun p => x :: p) <|> firstFarIn? room es

end

end Disk.Node

/-! ## 2. Listing -/

/-- The text that a name on disk is, if it is one. -/
def textOfName (x : Disk.Name) : Except PathProblem (List Char) :=
  match String.fromUTF8? ⟨x.toArray⟩ with
  | some s => .ok s.toList
  | none => .error .notText

/-- The path inside a repository that a place below its root is. -/
def RepoPath.ofPlace (place : Disk.Place) : Except PathProblem RepoPath := do
  RepoPath.ofSegments? (← place.mapM textOfName)

/-- The fault of a walk that cannot go on at a path. -/
def walkFault (path : String) (e : DiskError) : Fault :=
  ⟨.io, s!"walk: IO error for operation on {path}: {e.message}"⟩

/-- A root as paths of what is below it begin. -/
def rootStem (root : String) : String := String.ofList (Path.join root.toList [])

/-- A name as it is shown. -/
def shownName (x : Disk.Name) : String := String.ofList (Text.shown x)

/-- The root of a working copy; a link there must lead somewhere, but is not followed. -/
def walkRoot (d : Disk) (root : String) : Except DiskError Disk.Node := do
  match ← d.nodeAt (Disk.bytesOf root) false with
  | .link target => do
    discard (d.nodeAt (Disk.bytesOf root) true)
    return .link target
  | n => return n

/-- The fault of a walk that comes to a directory too far down to be opened, if there is one. -/
def farFault? (root : String) (top : Disk.Node) : Option Fault :=
  (top.firstFar? (Disk.maxPath - (rootStem root).utf8ByteSize)).map fun place =>
    walkFault (rootStem root ++ "/".intercalate (place.map shownName)) .nameTooLong

/-- Lists the working copy under a root. -/
def Listing.ofDisk (d : Disk) (root : String) : Except Fault (List RepoPath) := do
  let top ← (walkRoot d root).mapError (walkFault root)
  if let some fault := farFault? root top then throw fault
  let paths ← (top.leaves.mapM RepoPath.ofPlace).mapError PathProblem.fault
  return Listing.sort paths

/-- A repository whose files can be listed. -/
inductive Tree where
  | listed (paths : List RepoPath)
  | workingCopy (root : String)
  deriving DecidableEq, Repr

/-- The files of a repository. -/
def Tree.files (d : Disk) : Tree → Except Fault (List RepoPath)
  | .listed paths => .ok paths
  | .workingCopy root => Listing.ofDisk d root

end Ownership
