/-
# Findings

A finding is one problem with an owners file, found by a check that looks at the rules and nothing
else.  How grave it is, the policy says later.

* `Finding` lists the problems, each with the rule it is about;
* the functions `Finding.ofPattern` to `Finding.ofRepeatedPatterns` are the checks;
* `Finding.code`, `Finding.line` and `Finding.message` say what is reported of a finding.
-/
import Ownership.Code
import Ownership.Directory
import Ownership.RuleSet

namespace Ownership

/-! ## 1. Types -/

/-- A problem with an owners file. -/
inductive Finding where
  /-- The file has more bytes than the limit. -/
  | fileTooLarge (size limit : Nat)
  /-- Owners must be known, and there is no directory to ask. -/
  | directoryMissing
  /-- The pattern is no glob. -/
  | badPattern (r : Rule) (why : GlobRefusal)
  /-- The owner has no known form. -/
  | malformedOwner (r : Rule) (o : Owner)
  /-- The owner is an email address, and those are not wanted. -/
  | emailOwner (r : Rule) (o : Owner)
  /-- The rule has no owners. -/
  | noOwners (r : Rule)
  /-- The owner stands in the rule before. -/
  | repeatedOwner (r : Rule) (o : Owner)
  /-- The owner is well formed, and the directory does not know it. -/
  | unknownOwner (r : Rule) (o : Owner)
  /-- The pattern stands in a rule before, first on the given line. -/
  | repeatedPattern (r : Rule) (first : Nat)
  deriving DecidableEq, Repr

namespace Finding

/-! ## 2. What is reported -/

/-- The code of a finding. -/
def code : Finding → Code
  | fileTooLarge .. => .tooLarge
  | directoryMissing => .unknownOwner
  | badPattern .. => .pattern
  | malformedOwner .. | emailOwner .. => .owner
  | noOwners .. => .noOwners
  | repeatedOwner .. => .duplicateOwner
  | unknownOwner .. => .unknownOwner
  | repeatedPattern .. => .duplicate

/-- The rule that a finding is about, if it is about one. -/
def rule? : Finding → Option Rule
  | fileTooLarge .. | directoryMissing => none
  | badPattern r _ | malformedOwner r _ | emailOwner r _ | noOwners r | repeatedOwner r _
  | unknownOwner r _ | repeatedPattern r _ => some r

/-- The owner that a finding is about, if it is about one. -/
def owner? : Finding → Option Owner
  | malformedOwner _ o | emailOwner _ o | repeatedOwner _ o | unknownOwner _ o => some o
  | _ => none

/-- The line of a finding, zero if it is about the whole file. -/
def line (f : Finding) : Nat := (f.rule?.map Rule.line).getD 0

/-- The forms that an owner may have, in words. -/
def wantedForms : String := "expected \x60@user\x60, \x60@org/team\x60, or an email address"

/-- A finding in words. -/
def message : Finding → String
  | fileTooLarge size limit => s!"file too large: {size} bytes (limit {limit})"
  | directoryMissing =>
    "unknown owner check impossible: strict owner policy requires a HandleDirectory"
  | badPattern r why => s!"invalid pattern on line {r.line}: {(GlobError.mk r.pattern why).message}"
  | malformedOwner r o =>
    s!"malformed owner {quoted o.raw} on line {r.line}: {wantedForms}"
  | emailOwner r o =>
    s!"malformed owner {quoted o.raw} on line {r.line}: email owners are not allowed"
  | noOwners r => s!"rule {quoted r.pattern} on line {r.line} has no owners"
  | repeatedOwner r o => s!"owner {quoted o.raw} listed twice on line {r.line}"
  | unknownOwner r o => s!"unknown owner {quoted o.raw} on line {r.line}"
  | repeatedPattern r first =>
    s!"duplicate pattern {quoted r.pattern} on line {r.line} (first on line {first})"

/-! ## 3. Checks of one rule -/

/-- The pattern must be a glob. -/
def ofPattern (r : Rule) : List Finding :=
  match Glob.ofText r.pattern with
  | .ok _ => []
  | .error e => [badPattern r e.refusal]

/-- The problem with the form of an owner, if there is one. -/
def ofForm? (allowEmail : Bool) (r : Rule) (o : Owner) : Option Finding :=
  match o.kind with
  | .invalid => some (malformedOwner r o)
  | .email => if allowEmail then none else some (emailOwner r o)
  | .user | .team => none

/-- Every owner must have a form that is wanted. -/
def ofForms (allowEmail : Bool) (r : Rule) : List Finding :=
  r.owners.filterMap (ofForm? allowEmail r)

/-- A rule must have owners. -/
def ofMissingOwners (r : Rule) : List Finding := if r.owners.isEmpty then [noOwners r] else []

/-- The owners that stand in the list before, or in `seen`. -/
def repeated (seen : List String) : List Owner → List Owner
  | [] => []
  | o :: os =>
    if seen.contains o.raw then o :: repeated seen os else repeated (o.raw :: seen) os

/-- No owner must stand in a rule twice. -/
def ofRepeatedOwners (r : Rule) : List Finding :=
  (repeated [] r.owners).map (repeatedOwner r)

/-- Every well-formed owner must be known. -/
def ofUnknownOwners (d : Directory) (r : Rule) : List Finding :=
  (r.owners.filter fun o => o.isValid && !d.knows o.name).map (unknownOwner r)

/-! ## 4. Checks of a file -/

/-- The rules whose pattern stands in the list before or in `seen`, with the line it stood on
first. -/
def repeatedPatterns (seen : List (String × Nat)) : List Rule → List Finding
  | [] => []
  | r :: rs =>
    match seen.lookup r.pattern with
    | some first => repeatedPattern r first :: repeatedPatterns seen rs
    | none => repeatedPatterns ((r.pattern, r.line) :: seen) rs

/-- No pattern must stand in a file twice. -/
def ofRepeatedPatterns (f : OwnersFile) : List Finding := repeatedPatterns [] f.rules

/-- A file must not be larger than the limit. -/
def ofSize (size limit : Nat) : List Finding :=
  if size > limit then [fileTooLarge size limit] else []

end Finding

end Ownership
