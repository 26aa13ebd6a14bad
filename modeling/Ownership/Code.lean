/-
# Codes

Every finding and every failure carries a code that does not change between versions, and each code
has an exit status for the process that reports it.

* `Code.name` and `Code.ofName?` write and read a code;
* `Code.exitStatus` is its exit status.
-/

namespace Ownership

/-- The codes of findings and failures. -/
inductive Code where
  | policy
  | pattern
  | owner
  | duplicate
  | noOwners
  | duplicateOwner
  | unknownOwner
  | tooLarge
  | coverage
  | notFound
  | generic
  deriving DecidableEq, Repr

namespace Code

/-- All codes. -/
def all : List Code :=
  [.policy, .pattern, .owner, .duplicate, .noOwners, .duplicateOwner, .unknownOwner, .tooLarge,
    .coverage, .notFound, .generic]

/-- The name of a code. -/
def name : Code → String
  | .policy => "E_POLICY"
  | .pattern => "E_PATTERN"
  | .owner => "E_OWNER"
  | .duplicate => "E_DUPLICATE"
  | .noOwners => "E_NO_OWNERS"
  | .duplicateOwner => "E_DUPLICATE_OWNER"
  | .unknownOwner => "E_UNKNOWN_OWNER"
  | .tooLarge => "E_TOO_LARGE"
  | .coverage => "E_COVERAGE"
  | .notFound => "E_NOT_FOUND"
  | .generic => "E_GENERIC"

/-- The exit status of a code. -/
def exitStatus : Code → Nat
  | .policy => 10
  | .pattern => 20
  | .owner => 30
  | .duplicate => 40
  | .noOwners => 41
  | .duplicateOwner => 42
  | .unknownOwner => 50
  | .tooLarge => 60
  | .coverage => 70
  | .notFound => 80
  | .generic => 1

/-- The code with a name. -/
def ofName? (s : String) : Option Code := all.find? fun c => c.name == s

/-- Reading a written code gives the code again. -/
theorem ofName?_name (c : Code) : ofName? c.name = some c := by cases c <;> rfl

/-- No two codes have one name. -/
theorem name_injective {c c' : Code} (h : c.name = c'.name) : c = c' :=
  Option.some.inj (by rw [← ofName?_name c, h, ofName?_name c'])

end Code

end Ownership
