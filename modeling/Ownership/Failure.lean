/-
# Failures

A failure is what an operation on a whole repository can end in.  Each has a code that does not
change between versions.

* `Failure.message` is the failure in words, `Failure.code` its code;
* `Fault.failure` is the failure that a fault turns into.
-/
import Ownership.Code
import Ownership.Fault

namespace Ownership

/-- What an operation can end in. -/
inductive Failure where
  | policyViolation (detail : String)
  | filesystem (detail : String)
  | notFound (root : String)
  | tooLarge (size limit : Nat)
  | invalidPath (detail : String)
  | treeUnavailable (detail : String)
  deriving DecidableEq, Repr

namespace Failure

/-- The one-word name of a failure. -/
def name : Failure → String
  | policyViolation _ => "PolicyViolation"
  | filesystem _ => "FilesystemError"
  | notFound _ => "NotFound"
  | tooLarge .. => "TooLarge"
  | invalidPath _ => "InvalidPath"
  | treeUnavailable _ => "TreeUnavailable"

/-- The failure in words. -/
def message : Failure → String
  | policyViolation detail => s!"policy violation: {detail}"
  | filesystem detail => s!"filesystem error: {detail}"
  | notFound root => s!"no CODEOWNERS file found under {root}"
  | tooLarge size limit => s!"CODEOWNERS file too large: {size} bytes (limit {limit})"
  | invalidPath detail => s!"invalid path: {detail}"
  | treeUnavailable detail => s!"repository tree unavailable: {detail}"

/-- The code of a failure. -/
def code : Failure → Code
  | policyViolation _ => .policy
  | notFound _ => .notFound
  | tooLarge .. => .tooLarge
  | filesystem _ | invalidPath _ | treeUnavailable _ => .generic

end Failure

/-- The failure that a fault turns into. -/
def Fault.failure (f : Fault) : Failure :=
  match f.kind with
  | .invalidPath => .invalidPath f.detail
  | .io => .filesystem f.detail
  | .parse | .policy => .policyViolation f.detail

end Ownership
