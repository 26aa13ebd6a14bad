/-
# Policies

A policy says how grave each kind of finding is, which owners are well formed, which rule takes
precedence, what coverage must reach, and what the facts about a run may show.

* `Policy.standard`, `Policy.platform` and `Policy.strict` are the presets;
* `CheckLevels.levelOf` is the level of a code.
-/
import Ownership.Code
import Ownership.RuleSet

namespace Ownership

/-! ## 1. Types -/

/-- How a finding is treated: it stops, it warns, or it is let pass. -/
inductive Level where
  | stop
  | warn
  | allow
  deriving DecidableEq, Repr

/-- The word for a level. -/
def Level.name : Level → String
  | .stop => "stop"
  | .warn => "warn"
  | .allow => "allow"

/-- The level of each check. -/
structure CheckLevels where
  invalidPattern : Level := .stop
  malformedOwner : Level := .stop
  duplicatePattern : Level := .stop
  missingOwners : Level := .warn
  duplicateOwner : Level := .warn
  unknownOwner : Level := .stop
  fileTooLarge : Level := .stop
  deriving DecidableEq, Repr

/-- Which owners are acceptable; a strict policy needs a directory of those that exist. -/
structure OwnerRules where
  strict : Bool := false
  allowEmail : Bool := true
  deriving DecidableEq, Repr

/-- What coverage must reach, and the globs of the paths that do not count for it. -/
structure CoverageRules where
  requireFull : Bool := false
  ignore : List String := []
  deriving DecidableEq, Repr

/-- What facts may show: whether times are zeroed and email addresses masked. -/
structure FactRules where
  redact : Bool := true
  maskEmails : Bool := true
  deriving DecidableEq, Repr

/-- The largest file, in bytes, that the hosting platform takes into account. -/
def platformMaxBytes : Nat := 3 * 1024 * 1024

/-- A policy. -/
structure Policy where
  checks : CheckLevels := {}
  owners : OwnerRules := {}
  coverage : CoverageRules := {}
  facts : FactRules := {}
  precedence : Precedence := .lastMatch
  maxFileBytes : Nat := platformMaxBytes
  deriving DecidableEq, Repr

namespace Policy

/-! ## 2. Presets -/

/-- The policy that holds where nothing else is said. -/
def standard : Policy := {}

/-- What the hosting platform itself tolerates: a later rule for the same pattern wins, and a rule
without owners leaves its paths unowned on purpose. -/
def platform : Policy :=
  { checks := { duplicatePattern := .warn, missingOwners := .allow } }

/-- Every check stops, owners must be known and be no email addresses, and every file needs an
owner. -/
def strict : Policy where
  checks := { missingOwners := .stop, duplicateOwner := .stop }
  owners := { strict := true, allowEmail := false }
  coverage := { requireFull := true }

end Policy

/-! ## 3. Levels -/

/-- The level of a code; codes that no check reports always stop. -/
def CheckLevels.levelOf (c : CheckLevels) : Code → Level
  | .pattern => c.invalidPattern
  | .owner => c.malformedOwner
  | .duplicate => c.duplicatePattern
  | .noOwners => c.missingOwners
  | .duplicateOwner => c.duplicateOwner
  | .unknownOwner => c.unknownOwner
  | .tooLarge => c.fileTooLarge
  | .policy | .coverage | .notFound | .generic => .stop

end Ownership
