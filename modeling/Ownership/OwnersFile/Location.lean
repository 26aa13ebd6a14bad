/-
# Where an owners file is kept

A repository keeps its owners file in one of a few places; the first of them that holds a file
counts.

* `fileLocations` are the places, in the order they are searched;
* `locate` finds the file of a repository.
-/
import Ownership.Disk.Lookup
import Ownership.Failure
import Ownership.Path.Component

namespace Ownership

/-- The places of an owners file in a repository, in the order they are searched. -/
def fileLocations : List String := [".github/CODEOWNERS", "CODEOWNERS", "docs/CODEOWNERS"]

/-- The path of a place in a repository. -/
def locationUnder (root location : String) : String :=
  String.ofList (Path.join root.toList location.toList)

/-- The path of the owners file of a repository. -/
def locate (d : Disk) (root : String) : Except Failure String :=
  match (fileLocations.map (locationUnder root)).find? fun p => d.isFile (Disk.bytesOf p) with
  | some path => .ok path
  | none => .error (.notFound root)

end Ownership
