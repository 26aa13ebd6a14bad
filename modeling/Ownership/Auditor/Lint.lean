/-
# Linting an owners file

All checks are run, the findings are put in the order of lines, and each counts as the policy says.

* `Auditor.findings` are the findings on a file;
* `Auditor.report` reports those that the policy does not let pass;
* `Auditor.lint` is the report with its facts, one for each row and one for the whole.
-/
import Ownership.Auditor

namespace Ownership

/-- The identifiers of the rules of a file, each behind the line that the rule stands on. -/
def OwnersFile.ruleIds (f : OwnersFile) : List (Nat × Uuid) :=
  let ruleset := rulesetId f
  f.rules.zipIdx.map fun r => (r.1.line, ruleId ruleset r.1 r.2)

namespace Auditor

/-! ## 1. Findings -/

/-- The findings on a file as a whole. -/
def fileFindings (a : Auditor) (f : OwnersFile) : List Finding :=
  Finding.ofSize f.sourceBytes a.policy.maxFileBytes ++
    if a.policy.owners.strict && a.directory.isNone then [.directoryMissing] else []

/-- The findings on a rule by itself. -/
def ruleFindings (a : Auditor) (r : Rule) : List Finding :=
  Finding.ofPattern r ++ Finding.ofForms a.policy.owners.allowEmail r ++
    Finding.ofMissingOwners r ++ Finding.ofRepeatedOwners r ++
    match a.directory with
    | none => []
    | some d => Finding.ofUnknownOwners d r

/-- All findings on a file, in the order of lines, those on one line in the order of the checks. -/
def findings (a : Auditor) (f : OwnersFile) : List Finding :=
  (a.fileFindings f ++ f.rules.flatMap a.ruleFindings ++ Finding.ofRepeatedPatterns f).mergeSort
    fun x y => decide (x.line ≤ y.line)

/-! ## 2. The report -/

/-- A finding as a row of the report, unless the policy lets it pass; `ids` are the identifiers of
the rules by line. -/
def row? (a : Auditor) (ids : List (Nat × Uuid)) (x : Finding) : Option Row :=
  (a.policy.severityOf x).map fun s =>
    { check := x.code.name
      severity := s
      line := x.line
      ruleId := (ids.lookup x.line).map Uuid.toText
      pattern := x.rule?.map Rule.pattern
      owner := x.owner?.map Owner.raw
      message := x.message }

/-- The rows of a severity. -/
def rowsOf (s : Severity) (rows : List Row) : List Row := rows.filter fun r => r.severity == s

/-- The report on a file. -/
def report (a : Auditor) (f : OwnersFile) : Report :=
  let rows := (a.findings f).filterMap (a.row? f.ruleIds)
  { ok := (rowsOf .stop rows).isEmpty
    rulesetId := (rulesetId f).toText
    ruleCount := f.ruleCount
    warnings := (rowsOf .warn rows).map Row.message
    stops := (rowsOf .stop rows).map Row.message
    rows := rows }

/-! ## 3. Facts -/

/-- A member with a text, if there is one. -/
def textValue? (key : String) (value : Option String) : Members :=
  (value.map fun v => (key, Json.text v)).toList

/-- What the fact on a row says. -/
def rowValues (r : Row) : Members :=
  [("check", .text r.check), ("line", .nat r.line), ("message", .text r.message)] ++
    textValue? "rule_id" r.ruleId ++ textValue? "pattern" r.pattern ++ textValue? "owner" r.owner

/-- The fact on a row. -/
def rowFact (c : FactContext) (r : Row) : Fact :=
  Fact.make c .lint r.severity.decision (rowValues r)

/-- The codes of a report that stops: those of the rows that stop, then that of the policy. -/
def stopCodes (r : Report) : List String := checksOf (rowsOf .stop r.rows) ++ [Code.policy.name]

/-- The code that decides the exit status of a report that stops: that of the first row that
stops, or that of the policy. -/
def firstCode (r : Report) : Code :=
  ((r.rows.find? fun row => row.severity == .stop).bind fun row => Code.ofName? row.check).getD
    .policy

/-- What the fact on a whole report counts. -/
def countValues (r : Report) : Members :=
  [("rule_count", .nat r.ruleCount), ("stops", .nat r.stops.length),
    ("warnings", .nat r.warnings.length), ("checks", .texts r.checks)]

/-- What the fact on a report that stops says besides. -/
def stopValues (r : Report) : Members :=
  [("summary_error_ids", .texts (stopCodes r)), ("exit_code", .nat (firstCode r).exitStatus)]

/-- The events on a whole report. -/
def summaryEvents (c : FactContext) (r : Report) : List Event :=
  if r.ok then
    [.fact (Fact.make c .lintSummary .success (countValues r)), .line .info "lint: passed"]
  else
    [.fact (Fact.make c .lintSummary .failure (countValues r ++ stopValues r)),
      .line .warn "lint: policy rejected CODEOWNERS (E_POLICY)"]

/-- Lints a file. -/
def lint (a : Auditor) (f : OwnersFile) : Traced Report :=
  let r := a.report f
  let c := a.context f
  ⟨r, r.rows.map (fun row => .fact (rowFact c row)) ++ summaryEvents c r⟩

end Auditor

end Ownership
