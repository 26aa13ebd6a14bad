/-
# Paths inside a repository

A repository path is a nonempty list of segments with slashes between them, relative to the root of
the repository; patterns are matched against its text.

* `RepoPath.ofText` reads the spelling that a change proposal uses;
* `RepoPath.ofRooted` reads a path on disk, given the root of the repository;
* `RepoPath.under` is the path on disk again.
-/
import Ownership.Fault
import Ownership.Path.Component

namespace Ownership

/-! ## 1. Types -/

/-- A path inside a repository. -/
structure RepoPath where
  text : String
  deriving DecidableEq, Repr

/-- Why a text is no path inside a repository. -/
inductive PathProblem where
  | noSegment
  | parentSegment
  | outsideRoot
  | notText
  | unsupported
  deriving DecidableEq, Repr

/-- The fault that a problem with a path is reported as. -/
def PathProblem.fault : PathProblem → Fault
  | .noSegment => ⟨.invalidPath, "empty path"⟩
  | .parentSegment => ⟨.policy, "dotdot"⟩
  | .outsideRoot => ⟨.policy, "path escapes root"⟩
  | .notText => ⟨.invalidPath, "non-utf8 component"⟩
  | .unsupported => ⟨.invalidPath, "unsupported component"⟩

namespace RepoPath

/-! ## 2. From segments -/

/-- The path with these segments. -/
def ofSegments (segs : List (List Char)) : RepoPath :=
  ⟨String.ofList (['/'].intercalate segs)⟩

/-- The segments of a path. -/
def segments (p : RepoPath) : List (List Char) := p.text.toList.splitOn '/'

/-- The path with these segments, unless there are none. -/
def ofSegments? (segs : List (List Char)) : Except PathProblem RepoPath :=
  if segs = [] then .error .noSegment else .ok (ofSegments segs)

/-! ## 3. From a proposal -/

/-- Slashes of both directions separate segments. -/
def isSeparator (c : Char) : Bool := c == '/' || c == '\\'

/-- Holds of a piece that names no segment. -/
def isVoid (piece : List Char) : Bool := piece == [] || piece == ['.']

theorem isVoid_iff {piece : List Char} : isVoid piece = true ↔ piece = [] ∨ piece = ['.'] := by
  rw [isVoid, Bool.or_eq_true, beq_iff_eq, beq_iff_eq]

/-- Reads a path as a change proposal spells it; a parent segment is refused. -/
def ofText (text : String) : Except PathProblem RepoPath :=
  let pieces := text.toList.splitOnP isSeparator
  if pieces.contains ['.', '.'] then .error .parentSegment
  else ofSegments? (pieces.filter fun p => !isVoid p)

/-! ## 4. From a path on disk -/

/-- The segment that a component names; the current directory names none. -/
def segmentOf (c : Path.Component (List Char)) : Except PathProblem (Option (List Char)) :=
  match c with
  | .current => .ok none
  | .name n => .ok (some n)
  | .parent => .error .parentSegment
  | .root => .error .unsupported

/-- The path that the components name, or the problem with the first that names none. -/
def ofComponents (cs : List (Path.Component (List Char))) : Except PathProblem RepoPath := do
  ofSegments? ((← cs.mapM segmentOf).filterMap id)

/-- Reads a path on disk: an absolute one must lie under `root`, a relative one is taken as it
is. -/
def ofRooted (root path : String) : Except PathProblem RepoPath :=
  let cs := Path.components path.toList
  if Path.isAbsolute path.toList then
    match Path.dropPrefix (Path.components root.toList) cs with
    | none => .error .outsideRoot
    | some rest => ofComponents rest
  else ofComponents cs

/-- The path on disk of a repository path, given the root of the repository. -/
def under (root : String) (p : RepoPath) : String :=
  String.ofList (p.segments.foldl Path.join root.toList)

end RepoPath

end Ownership
