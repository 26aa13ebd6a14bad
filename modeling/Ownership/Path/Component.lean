/-
# Components of a path

A path on disk is read as a list of components.  Repeated slashes and a slash at the end add
nothing, nor does a point between slashes; only a point that opens a relative path counts as the
current directory.  Two points always count, since what they mean depends on the disk.

* `components` are the components of a path;
* `join` puts a name behind a path.
-/

namespace Ownership.Path

/-- A component of a path, whose names are of type `α`. -/
inductive Component (α : Type) where
  | root
  | current
  | parent
  | name (n : α)
  deriving DecidableEq, Repr

/-- Holds of a path that starts at the root of the disk. -/
def isAbsolute (path : List Char) : Bool := path.head? == some '/'

/-- The component that a piece between slashes inside a path stands for, if any. -/
def innerComponent? (piece : List Char) : Option (Component (List Char)) :=
  if piece = [] ∨ piece = ['.'] then none
  else if piece = ['.', '.'] then some .parent
  else some (.name piece)

/-- The component in front of the others: the root, or the current directory if it is named. -/
def leading (path : List Char) : List (Component (List Char)) :=
  if isAbsolute path then [.root]
  else if (path.splitOn '/').head? = some ['.'] then [.current]
  else []

/-- The components of a path. -/
def components (path : List Char) : List (Component (List Char)) :=
  leading path ++ (path.splitOn '/').filterMap innerComponent?

/-- What is left of `xs` behind the list `ys`, if `ys` stands at its front. -/
def dropPrefix {α : Type} [DecidableEq α] : List α → List α → Option (List α)
  | [], xs => some xs
  | _ :: _, [] => none
  | y :: ys, x :: xs => if x = y then dropPrefix ys xs else none

/-- The path with a name behind it, a slash between them unless the path is empty or ends in one. -/
def join (path name : List Char) : List Char :=
  if path = [] ∨ path.getLast? = some '/' then path ++ name else path ++ '/' :: name

end Ownership.Path
