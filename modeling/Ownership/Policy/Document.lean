/-
# Policies in YAML

A policy can be written as a YAML document that names what differs from the standard policy.

* `Policy.ofYaml` reads one.
-/
import Ownership.Fault
import Ownership.Policy
import Ownership.Yaml.Decoder

namespace Ownership

open Yaml

/-- Reads a level. -/
def Level.decoder : Decoder Level :=
  word ([Level.stop, .warn, .allow].map fun l => (l.name, l))

/-- Reads a precedence. -/
def Precedence.decoder : Decoder Precedence :=
  word ([Precedence.lastMatch, .mostSpecific].map fun p => (p.name, p))

/-- The fields of the check levels. -/
def CheckLevels.fields : Fields CheckLevels
  | "invalid_pattern" => some (field Level.decoder fun c l => { c with invalidPattern := l })
  | "malformed_owner" => some (field Level.decoder fun c l => { c with malformedOwner := l })
  | "duplicate_pattern" => some (field Level.decoder fun c l => { c with duplicatePattern := l })
  | "missing_owners" => some (field Level.decoder fun c l => { c with missingOwners := l })
  | "duplicate_owner" => some (field Level.decoder fun c l => { c with duplicateOwner := l })
  | "unknown_owner" => some (field Level.decoder fun c l => { c with unknownOwner := l })
  | "file_too_large" => some (field Level.decoder fun c l => { c with fileTooLarge := l })
  | _ => none

/-- The fields of the owner rules. -/
def OwnerRules.fields : Fields OwnerRules
  | "strict" => some (field boolean fun o b => { o with strict := b })
  | "allow_email" => some (field boolean fun o b => { o with allowEmail := b })
  | _ => none

/-- The fields of the coverage rules. -/
def CoverageRules.fields : Fields CoverageRules
  | "require_full" => some (field boolean fun c b => { c with requireFull := b })
  | "ignore" => some (field (sequence text) fun c gs => { c with ignore := gs })
  | _ => none

/-- The fields of the rules for facts. -/
def FactRules.fields : Fields FactRules
  | "redact" => some (field boolean fun f b => { f with redact := b })
  | "mask_emails" => some (field boolean fun f b => { f with maskEmails := b })
  | _ => none

/-- The fields of a policy. -/
def Policy.fields : Fields Policy
  | "checks" =>
    some (field (record "Checks" CheckLevels.fields {}) fun p c => { p with checks := c })
  | "owners" =>
    some (field (record "OwnerRules" OwnerRules.fields {}) fun p o => { p with owners := o })
  | "coverage" =>
    some (field (record "Coverage" CoverageRules.fields {}) fun p c => { p with coverage := c })
  | "facts" =>
    some (field (record "FactsMode" FactRules.fields {}) fun p f => { p with facts := f })
  | "precedence" => some (field Precedence.decoder fun p x => { p with precedence := x })
  | "max_file_bytes" => some (field number fun p n => { p with maxFileBytes := n })
  | _ => none

/-- Reads a policy from YAML. -/
def Policy.ofYaml (text : String) : Except Problem Policy :=
  Decoder.ofText (record "Policy" Policy.fields Policy.standard) text.toList

/-- The fault that a problem with a policy's text is reported as. -/
def Yaml.Problem.fault (p : Problem) : Fault := ⟨.parse, s!"policy: {p.message}"⟩

end Ownership
