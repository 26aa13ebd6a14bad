/-
# Rule sets

A rule set is the rules of a file whose patterns are globs, read once.  It resolves a path to the
rule that owns it; the rules whose patterns are no globs are set aside and own nothing.

* `RuleSet.compile` reads the patterns of a file;
* `RuleSet.ownerRule?` is the rule that owns a path, under a precedence;
* `RuleSet.resolve` also says which rules match.
-/
import Ownership.OwnersFile
import Ownership.Glob
import Ownership.RepoPath

namespace Ownership

/-! ## 1. Types -/

/-- Which rule owns a path that several match. -/
inductive Precedence where
  /-- The last one in the file. -/
  | lastMatch
  /-- The one with the most literal characters in its pattern, of several the last. -/
  | mostSpecific
  deriving DecidableEq, Repr

/-- The word for a precedence. -/
def Precedence.name : Precedence → String
  | .lastMatch => "last_match"
  | .mostSpecific => "most_specific"

/-- A rule with its pattern read. -/
structure ReadRule where
  rule : Rule
  glob : Glob
  deriving DecidableEq, Repr

/-- The rules of a file that can match, and those set aside with the line each stands on. -/
structure RuleSet where
  rules : List ReadRule
  skipped : List (Nat × GlobError)
  precedence : Precedence
  deriving DecidableEq, Repr

/-- What becomes of a path: the rule that owns it, if any, and the lines of all that match it. -/
structure Resolution where
  path : RepoPath
  rule : Option Rule
  matchedLines : List Nat
  deriving DecidableEq, Repr

namespace Resolution

/-- The names of the owners of the path. -/
def ownerNames (r : Resolution) : List String := (r.rule.map Rule.ownerNames).getD []

/-- Holds if no rule owns the path, or one without owners does. -/
def isUnowned (r : Resolution) : Bool :=
  match r.rule with
  | none => true
  | some rule => rule.owners.isEmpty

end Resolution

namespace RuleSet

/-! ## 2. Reading the patterns -/

/-- The rule with its pattern read, if it is a glob. -/
def read? (r : Rule) : Option ReadRule := (Glob.ofText r.pattern).toOption.map fun g => ⟨r, g⟩

/-- The line of a rule and why its pattern is no glob, if it is none. -/
def refused? (r : Rule) : Option (Nat × GlobError) :=
  match Glob.ofText r.pattern with
  | .ok _ => none
  | .error e => some (r.line, e)

/-- The rule set of a file. -/
def compile (f : OwnersFile) (precedence : Precedence) : RuleSet where
  rules := f.rules.filterMap read?
  skipped := f.rules.filterMap refused?
  precedence := precedence

/-! ## 3. Resolving a path -/

/-- The rules that match a path, in file order. -/
def matching (s : RuleSet) (path : String) : List ReadRule :=
  s.rules.filter fun r => r.glob.covers path

/-- The one of two rules, the second later in the file, that is at least as specific. -/
def moreSpecific (best : Option ReadRule) (r : ReadRule) : Option ReadRule :=
  match best with
  | none => some r
  | some b => if b.glob.specificity ≤ r.glob.specificity then some r else some b

/-- The rule that takes precedence among the matching ones. -/
def winner (p : Precedence) (ms : List ReadRule) : Option ReadRule :=
  match p with
  | .lastMatch => ms.getLast?
  | .mostSpecific => ms.foldl moreSpecific none

/-- The rule that owns a path, if any rule matches it. -/
def ownerRule? (s : RuleSet) (path : String) : Option Rule :=
  (winner s.precedence (s.matching path)).map ReadRule.rule

/-- What becomes of a path. -/
def resolve (s : RuleSet) (path : RepoPath) : Resolution where
  path := path
  rule := s.ownerRule? path.text
  matchedLines := (s.matching path.text).map fun r => r.rule.line

end RuleSet

end Ownership
