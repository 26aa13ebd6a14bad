/-
# Owners files

An owners file is a list of lines: blank, a comment, or a rule that gives the paths of one pattern
to some owners.  Blank lines and comments are kept, so that a file can be written back.

* `OwnersFile.rules` are the rules in the order of the file;
* `OwnersFile.pairs` are their patterns with the names of their owners.
-/
import Ownership.Owner

namespace Ownership

/-- A rule: on which line it stands (counted from one), its pattern and its owners. -/
structure Rule where
  line : Nat
  pattern : String
  owners : List Owner
  deriving DecidableEq, Repr

/-- The names of a rule's owners, in the order they are written. -/
def Rule.ownerNames (r : Rule) : List String := r.owners.map Owner.name

/-- A line of an owners file; a comment is its text behind the first comment sign. -/
inductive Line where
  | blank
  | comment (text : String)
  | rule (r : Rule)
  deriving DecidableEq, Repr

/-- The rule on a line, if it holds one. -/
def Line.rule? : Line → Option Rule
  | .rule r => some r
  | _ => none

/-- An owners file: its lines, and how many bytes its text had. -/
structure OwnersFile where
  lines : List Line
  sourceBytes : Nat
  deriving DecidableEq, Repr

namespace OwnersFile

/-- The file without lines. -/
def empty : OwnersFile := ⟨[], 0⟩

/-- The rules in file order. -/
def rules (f : OwnersFile) : List Rule := f.lines.filterMap Line.rule?

/-- How many rules there are. -/
def ruleCount (f : OwnersFile) : Nat := f.rules.length

/-- Each rule's pattern with its owners' names. -/
def pairs (f : OwnersFile) : List (String × List String) :=
  f.rules.map fun r => (r.pattern, r.ownerNames)

end OwnersFile

end Ownership
