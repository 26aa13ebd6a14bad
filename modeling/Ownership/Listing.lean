/-
# Listings of a repository

A listing is the paths of the files in a repository, in the order of their texts and each once.

* `Listing.ofTexts` lists paths that are spelled out, or names the first that is no path.
-/
import Ownership.RepoPath

namespace Ownership.Listing

/-- The list without the elements that repeat the one before them. -/
def dropRepeats {α : Type} [DecidableEq α] (xs : List α) : List α :=
  xs.foldr (fun x out => if out.head? = some x then out else x :: out) []

/-- The paths in the order of their texts. -/
def sort (ps : List RepoPath) : List RepoPath :=
  ps.mergeSort fun p q => decide (p.text ≤ q.text)

/-- Lists the paths that the texts spell. -/
def ofTexts (texts : List String) : Except PathProblem (List RepoPath) := do
  return dropRepeats (sort (← texts.mapM RepoPath.ofText))

end Ownership.Listing
