/-
# Faults

A fault is what a single operation on a path, a tree or a policy text can end in: a kind and a text
that says more.

* `Fault.message` is the fault in words.
-/

namespace Ownership

/-- The kinds of a fault. -/
inductive FaultKind where
  | invalidPath
  | io
  | parse
  | policy
  deriving DecidableEq, Repr

/-- The one-word name of a kind. -/
def FaultKind.name : FaultKind → String
  | .invalidPath => "InvalidPath"
  | .io => "Io"
  | .parse => "Parse"
  | .policy => "Policy"

/-- What a kind is called in a sentence. -/
def FaultKind.phrase : FaultKind → String
  | .invalidPath => "invalid path"
  | .io => "io error"
  | .parse => "parse error"
  | .policy => "policy violation"

/-- A fault: its kind, and a text that says more. -/
structure Fault where
  kind : FaultKind
  detail : String
  deriving DecidableEq, Repr

/-- The fault in words. -/
def Fault.message (f : Fault) : String := s!"{f.kind.name}: {f.detail}"

end Ownership
