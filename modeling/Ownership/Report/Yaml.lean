/-
# Reports in YAML

The rows of a report are written as a YAML list of mappings, the keys of each in one fixed order and
without those that a row does not have.

* `rowsToYaml` writes some rows.
-/
import Ownership.Report
import Ownership.Yaml.Written

namespace Ownership

/-- A value of a row: a text, or a number that stands as its digits. -/
inductive RowValue where
  | text (s : String)
  | number (n : Nat)
  deriving DecidableEq, Repr

/-- The keys and values of a row, in the order they are written. -/
def Row.entries (r : Row) : List (String × RowValue) :=
  [("check", .text r.check), ("severity", .text r.severity.name), ("line", .number r.line)] ++
    (r.ruleId.map fun s => ("rule_id", .text s)).toList ++
    (r.pattern.map fun s => ("pattern", .text s)).toList ++
    (r.owner.map fun s => ("owner", .text s)).toList ++
    [("message", .text r.message)]

/-- The indentation of the further lines of a value. -/
def rowValueIndent : Nat := 4

/-- A value as it stands behind its key. -/
def RowValue.toYaml : RowValue → List Char
  | .text s => Yaml.written rowValueIndent s.toList
  | .number n => Nat.toDigits 10 n ++ ['\n']

/-- A key and its value. -/
def entryToYaml (e : String × RowValue) : List Char := e.1.toList ++ ": ".toList ++ e.2.toYaml

/-- A row: a dash before its first key, and its other keys below that one. -/
def Row.toYaml (r : Row) : List Char :=
  "- ".toList ++ "  ".toList.intercalate (r.entries.map entryToYaml)

/-- Some rows as a YAML list. -/
def rowsToYaml (rows : List Row) : String :=
  if rows.isEmpty then "[]\n" else String.ofList (rows.flatMap Row.toYaml)

/-- The rows of a report as a YAML list. -/
def Report.toYaml (r : Report) : String := rowsToYaml r.rows

end Ownership
