/-
# Coverage

How much of a repository its owners file covers: which files nobody owns, and which rules own
nothing.

* `Coverage.ofFiles` measures a list of files;
* `Auditor.coverage` measures the repository of an auditor, without the paths that do not count.
-/
import Ownership.Auditor
import Ownership.Decimal.Binary64

namespace Ownership

/-! ## 1. Measuring -/

/-- How many files there are and have owners, which have none, which rules match no file, and
whether that will do. -/
structure Coverage where
  ok : Bool
  totalFiles : Nat
  ownedFiles : Nat
  unowned : List RepoPath
  unusedRuleLines : List Nat
  deriving DecidableEq, Repr

namespace Coverage

/-- The share of the files that have owners, one if there are no files. -/
def ratio (c : Coverage) : Binary64 :=
  if c.totalFiles = 0 then .one
  else (Binary64.ofQuotient? c.ownedFiles c.totalFiles).getD .one

/-- Holds of a path that nobody owns under the rules. -/
def isUnowned (s : RuleSet) (p : RepoPath) : Bool :=
  match s.ownerRule? p.text with
  | none => true
  | some r => r.owners.isEmpty

/-- The rules that match none of the files. -/
def unused (s : RuleSet) (files : List RepoPath) : List ReadRule :=
  s.rules.filter fun r => !files.any fun p => r.glob.covers p.text

/-- The coverage of some files under the rules. -/
def ofFiles (requireFull : Bool) (s : RuleSet) (files : List RepoPath) : Coverage :=
  let unowned := files.filter (isUnowned s)
  { ok := !requireFull || unowned.isEmpty
    totalFiles := files.length
    ownedFiles := (files.filter fun p => !isUnowned s p).length
    unowned := unowned
    unusedRuleLines := (unused s files).map fun r => r.rule.line }

end Coverage

namespace Auditor

/-! ## 2. The repository -/

/-- The globs of the paths that do not count. -/
def ignored (a : Auditor) : Except Failure (List Glob) :=
  (a.policy.coverage.ignore.mapM Glob.ofText).mapError fun e =>
    .policyViolation s!"coverage.ignore: {e.message}"

/-- The paths that count. -/
def counted (ignore : List Glob) (paths : List RepoPath) : List RepoPath :=
  paths.filter fun p => !ignore.any fun g => g.covers p.text

/-- The files of the repository that count. -/
def countedFiles (a : Auditor) (d : Disk) : Except Failure (List RepoPath) := do
  let some tree := a.tree | throw (.treeUnavailable "coverage requires a RepoTree")
  let ignore ← a.ignored
  let paths ← (tree.files d).mapError Fault.failure
  return counted ignore paths

/-- What the fact on a coverage says. -/
def coverageValues (c : Coverage) : Members :=
  [("total_files", .nat c.totalFiles), ("owned_files", .nat c.ownedFiles),
    ("unowned", .nat c.unowned.length),
    ("unused_rule_lines", .array (c.unusedRuleLines.map .nat))]

/-- What is decided on a coverage. -/
def coverageDecision (c : Coverage) : Decision :=
  if !c.ok then .failure else if c.unowned.isEmpty then .success else .warn

/-- The events of measuring a coverage. -/
def coverageEvents (x : FactContext) (c : Coverage) : List Event :=
  let fact := Fact.make x .coverage (coverageDecision c)
  if c.ok then [.fact (fact (coverageValues c))]
  else
    [.fact (fact (coverageValues c ++ codeValues .coverage)),
      .line .warn s!"coverage: {c.unowned.length} unowned file(s) (E_COVERAGE)"]

/-- Measures the coverage of the repository. -/
def coverage (a : Auditor) (d : Disk) (f : OwnersFile) : Traced (Except Failure Coverage) :=
  match a.countedFiles d with
  | .error e => ⟨.error e, []⟩
  | .ok files =>
    let s := RuleSet.compile f a.policy.precedence
    let c := Coverage.ofFiles a.policy.coverage.requireFull s files
    ⟨.ok c, coverageEvents (a.context f) c⟩

end Auditor

end Ownership
