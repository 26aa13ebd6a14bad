/-
# Facts

A fact is a structured record of one stage of a run: what was decided, and the values it was decided
on.  Every fact carries the same envelope around the values of its stage.

* `Fact.make` puts the envelope around the values and redacts the whole;
* `FactContext` is what the facts of one operation share.
-/
import Ownership.Fact.Redaction
import Ownership.Policy
import Ownership.RuleId

namespace Ownership

/-! ## 1. Types -/

/-- The stages of a run. -/
inductive Stage where
  | parse
  | lint
  | lintSummary
  | resolve
  | review
  | coverage
  deriving DecidableEq, Repr

/-- The name under which the facts of a stage are emitted. -/
def Stage.name : Stage → String
  | .parse => "parse"
  | .lint => "lint"
  | .lintSummary => "lint.summary"
  | .resolve => "resolve"
  | .review => "review"
  | .coverage => "coverage"

/-- What a stage decided. -/
inductive Decision where
  | success
  | failure
  | warn
  deriving DecidableEq, Repr

/-- The word for a decision. -/
def Decision.name : Decision → String
  | .success => "success"
  | .failure => "failure"
  | .warn => "warn"

/-- A fact: the program it comes from, its stage, what was decided, and all it says. -/
structure Fact where
  subsystem : String
  stage : Stage
  decision : Decision
  fields : Members
  deriving Repr

/-- The label of the program on every fact. -/
def factSubsystem : String := "ownerlint"

/-- The version of the form of facts. -/
def factSchemaVersion : Nat := 1

/-- What the facts of one operation share: the rules it works on, the time, and what may show. -/
structure FactContext where
  ruleset : Uuid
  time : String
  rules : FactRules
  deriving Repr

namespace Fact

/-! ## 2. The envelope -/

/-- The values of a stage in their envelope: the stage and the decision, the version, the time, the
rules and a path, each unless the stage has set it. -/
def enclose (c : FactContext) (s : Stage) (d : Decision) (values : Members) : Members :=
  ((((((Members.set [] "stage" (.text s.name)).setAll values).setNew "decision" (.text d.name)
    ).setNew "schema_version" (.nat factSchemaVersion)
    ).setNew "ts" (.text c.time)
    ).setNew "ruleset_id" (.text c.ruleset.toText)
    ).setNew "path" (.text "")

/-- The members with what the rules forbid taken out. -/
def redact (r : FactRules) (ms : Members) : Members :=
  let timed := if r.redact then Redaction.zeroTimesIn ms else ms
  if r.maskEmails then Redaction.maskEmailsIn timed else timed

/-- The fact of a stage with these values. -/
def make (c : FactContext) (s : Stage) (d : Decision) (values : Members) : Fact :=
  ⟨factSubsystem, s, d, redact c.rules (enclose c s d values)⟩

end Fact

end Ownership
