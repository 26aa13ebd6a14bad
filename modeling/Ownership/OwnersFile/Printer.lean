/-
# Writing an owners file

Comments and blank lines are written as they were read.  The owners of all rules start in one
column, one behind the longest pattern and not before column 24; a rule without owners is its
pattern alone.

* `OwnersFile.render` writes a file;
* `OwnersFile.ownerColumn` is the column of its owners.
-/
import Ownership.OwnersFile.Reader

namespace Ownership

/-- The least column in which owners start. -/
def minOwnerColumn : Nat := 24

/-- The column in which owners start: behind the longest written pattern. -/
def OwnersFile.ownerColumn (f : OwnersFile) : Nat :=
  (f.rules.map fun r => (escape r.pattern.toList).length + 1).foldl max minOwnerColumn

/-- The text filled up with spaces to `width` characters. -/
def padTo (width : Nat) (cs : List Char) : List Char :=
  cs ++ List.replicate (width - cs.length) ' '

/-- A rule as it is written when owners start in column `width`. -/
def Rule.render (width : Nat) (r : Rule) : List Char :=
  let pattern := escape r.pattern.toList
  if r.owners.isEmpty then pattern
  else padTo width pattern ++ [' '].intercalate (r.owners.map fun o => escape o.raw.toList)

/-- A line as it is written when owners start in column `width`. -/
def Line.render (width : Nat) : Line → List Char
  | .blank => []
  | .comment text => commentSign :: text.toList
  | .rule r => r.render width

/-- The text of a file, each line closed by a line feed. -/
def OwnersFile.render (f : OwnersFile) : String :=
  let width := f.ownerColumn
  String.ofList (f.lines.flatMap fun l => l.render width ++ ['\n'])

end Ownership
