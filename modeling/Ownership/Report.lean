/-
# Lint reports

A report lists the findings that a policy does not let pass, one row each, in the order of lines.

* `Row` is a finding as it is reported;
* `Report.checks` are the codes that occur, in the order of their first row.
-/

namespace Ownership

/-- How a reported finding counts. -/
inductive Severity where
  | stop
  | warn
  deriving DecidableEq, Repr

/-- The word for a severity. -/
def Severity.name : Severity → String
  | .stop => "stop"
  | .warn => "warn"

/-- A finding as it is reported; the line is zero if it is about the whole file. -/
structure Row where
  check : String
  severity : Severity
  line : Nat
  ruleId : Option String
  pattern : Option String
  owner : Option String
  message : String
  deriving DecidableEq, Repr

/-- The codes of some rows, each once, in the order of their first row. -/
def checksOf (rows : List Row) : List String := (rows.map Row.check).eraseDups

/-- What linting a file comes to. -/
structure Report where
  ok : Bool
  rulesetId : String
  ruleCount : Nat
  warnings : List String
  stops : List String
  rows : List Row
  deriving DecidableEq, Repr

/-- The codes that occur in a report. -/
def Report.checks (r : Report) : List String := checksOf r.rows

end Ownership
