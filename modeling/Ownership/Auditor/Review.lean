/-
# Reviews

A change to some paths needs the review of those who own them.

* `Auditor.resolve` resolves one path;
* `Auditor.review` names the owners of several, and the paths that have none.
-/
import Ownership.Auditor

namespace Ownership

/-- What a change needs: who has to review it, the paths that nobody owns, and what becomes of each
path. -/
structure Review where
  reviewers : List String
  unowned : List RepoPath
  resolutions : List Resolution
  deriving DecidableEq, Repr

/-- The review that some resolutions call for, each reviewer named once. -/
def Review.ofResolutions (rs : List Resolution) : Review where
  reviewers := (rs.flatMap Resolution.ownerNames).eraseDups
  unowned := (rs.filter Resolution.isUnowned).map Resolution.path
  resolutions := rs

namespace Auditor

/-! ## 1. One path -/

/-- The rules of a file under the precedence of the policy. -/
def compile (a : Auditor) (f : OwnersFile) : RuleSet := RuleSet.compile f a.policy.precedence

/-- Reads a path; the failure repeats it as it was spelled. -/
def readPath (text : String) : Except Failure RepoPath :=
  (RepoPath.ofText text).mapError fun e => .invalidPath s!"{text}: {e.fault.detail}"

/-- What the fact on a resolution says. -/
def resolutionValues (r : Resolution) : Members :=
  [("path", .text r.path.text),
    ("line", (r.rule.map fun rule => Json.nat rule.line).getD .null),
    ("owners", (r.rule.map fun rule => Json.texts (rule.owners.map Owner.raw)).getD .null),
    ("matched_lines", .array (r.matchedLines.map .nat))]

/-- Resolves a path. -/
def resolve (a : Auditor) (f : OwnersFile) (text : String) : Traced (Except Failure Resolution) :=
  match readPath text with
  | .error e => ⟨.error e, []⟩
  | .ok path =>
    let r := (a.compile f).resolve path
    let d : Decision := if r.isUnowned then .warn else .success
    ⟨.ok r, [.fact (Fact.make (a.context f) .resolve d (resolutionValues r))]⟩

/-! ## 2. Several paths -/

/-- What the fact on a review says. -/
def reviewValues (r : Review) : Members :=
  [("changed", .nat r.resolutions.length), ("owners", .texts r.reviewers),
    ("unowned", .texts (r.unowned.map RepoPath.text))]

/-- The events of a review. -/
def reviewEvents (c : FactContext) (r : Review) : List Event :=
  if r.unowned.isEmpty then [.fact (Fact.make c .review .success (reviewValues r))]
  else
    [.fact (Fact.make c .review .warn (reviewValues r)),
      .line .warn s!"review: {r.unowned.length} changed path(s) have no owner"]

/-- Names the reviewers of a change to some paths, each path taken once. -/
def review (a : Auditor) (f : OwnersFile) (texts : List String) :
    Traced (Except Failure Review) :=
  match texts.mapM readPath with
  | .error e => ⟨.error e, []⟩
  | .ok paths =>
    let r := Review.ofResolutions (paths.eraseDups.map (a.compile f).resolve)
    ⟨.ok r, reviewEvents (a.context f) r⟩

end Auditor

end Ownership
