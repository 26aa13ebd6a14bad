/-
# Auditors

An auditor works on owners files under one policy: it loads them, lints them, resolves paths, names
reviewers and measures coverage.  Each operation is an answer together with the events on the way.

* `Auditor` is a policy with what its checks may consult;
* `Policy.levelOf` and `Policy.severityOf` say how a finding counts under a policy.
-/
import Ownership.Event
import Ownership.Failure
import Ownership.Finding
import Ownership.Listing.WorkingCopy
import Ownership.Report

namespace Ownership

/-! ## 1. Types -/

/-- A policy, the directory of owners and the repository that its checks may consult, and the time
that facts carry. -/
structure Auditor where
  policy : Policy
  directory : Option Directory
  tree : Option Tree
  now : String

/-- The time that the facts of an auditor show. -/
def Auditor.time (a : Auditor) : String :=
  if a.policy.facts.redact then Redaction.zeroTime else a.now

/-- What the facts on a file share. -/
def Auditor.context (a : Auditor) (f : OwnersFile) : FactContext where
  ruleset := rulesetId f
  time := a.time
  rules := a.policy.facts

/-! ## 2. Severity -/

/-- How a finding of a level counts, if it is reported. -/
def Level.severity? : Level → Option Severity
  | .stop => some .stop
  | .warn => some .warn
  | .allow => none

/-- What is decided on a finding of a severity. -/
def Severity.decision : Severity → Decision
  | .stop => .failure
  | .warn => .warn

/-- The level of a finding under a policy: that of its code.  Only what is found of unknown owners
on no line, which is that there is no directory to ask, stops whatever the policy says. -/
def Policy.levelOf (p : Policy) (f : Finding) : Level :=
  if f.line = 0 ∧ f.code = .unknownOwner then .stop else p.checks.levelOf f.code

/-- How a finding counts under a policy, if it is reported. -/
def Policy.severityOf (p : Policy) (f : Finding) : Option Severity := (p.levelOf f).severity?

/-- The finding on a file of a size, with how it counts, if it is too large for the policy. -/
def Policy.excess? (p : Policy) (size : Nat) : Option (Finding × Severity) := do
  let f ← (Finding.ofSize size p.maxFileBytes).head?
  return (f, ← p.severityOf f)

/-! ## 3. Values of facts -/

/-- The values of a fact that carries a code. -/
def codeValues (c : Code) : Members :=
  [("error_id", .text c.name), ("exit_code", .nat c.exitStatus)]

/-- The values of a fact on a file on disk. -/
def pathValues : Option String → Members
  | none => []
  | some path => [("path", .text path)]

end Ownership
