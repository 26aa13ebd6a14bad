/-
# Identifiers of rules

A set of rules and each rule in it have an identifier that follows from their text alone, so that it
is the same in every run.  Line numbers do not enter, nor do comments and blank lines.

* `Rule.serialize` and `serializeRules` are the texts that are hashed;
* `rulesetId` is the identifier of a file's rules, `ruleId` that of one rule at one position.
-/
import Ownership.OwnersFile
import Ownership.Uuid

namespace Ownership

/-- The name that the identifiers of all rule sets live under. -/
def idSpaceTag : String := "https://ownerlint/codeowners"

/-- The name space of rule sets. -/
def idSpace : Uuid := Uuid.urlSpace.ofName idSpaceTag

/-- A rule as one line: the pattern and the owners, a space before each owner. -/
def Rule.serialize (r : Rule) : String :=
  r.pattern ++ String.join (r.owners.map fun o => " " ++ o.raw)

/-- The rules as lines, each closed by a line feed. -/
def serializeRules (rs : List Rule) : String := String.join (rs.map fun r => r.serialize ++ "\n")

/-- The identifier of the rules of a file. -/
def rulesetId (f : OwnersFile) : Uuid := idSpace.ofName (serializeRules f.rules)

/-- The text that the identifier of a rule at a position is made from. -/
def Rule.serializeAt (r : Rule) (index : Nat) : String := s!"{r.serialize}#{index}"

/-- The identifier of the rule at a position among the rules, counted from zero. -/
def ruleId (ruleset : Uuid) (r : Rule) (index : Nat) : Uuid :=
  ruleset.ofName (r.serializeAt index)

end Ownership
