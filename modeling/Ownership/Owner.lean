/-
# Owners

An owner is one word behind a pattern: a user `@name`, a team `@org/team`, an email address, or
something that the hosting platform does not recognise.  Reading an owner never fails; a word of no
known form is kept as `invalid`, so that a check can point at it.

* `Owner.ofText` classifies a word;
* `Owner.name` is what the owner is called without the sign of a handle.
-/
import Ownership.Text.WhiteSpace
import Ownership.Text.Lines

namespace Ownership

open Text

/-! ## 1. Types -/

/-- The forms of an owner. -/
inductive OwnerKind where
  | user
  | team
  | email
  | invalid
  deriving DecidableEq, Repr

/-- An owner as it is written, with its form. -/
structure Owner where
  raw : String
  kind : OwnerKind
  deriving DecidableEq, Repr

/-- The word for a form. -/
def OwnerKind.name : OwnerKind → String
  | .user => "user"
  | .team => "team"
  | .email => "email"
  | .invalid => "invalid"

/-! ## 2. Classification -/

/-- The sign that introduces a user or a team. -/
def handleSign : Char := '@'

/-- Handles are made of the ASCII letters and digits, hyphens, underscores and points. -/
def isHandleChar (c : Char) : Bool := c.isAlphanum || c == '-' || c == '_' || c == '.'

/-- A handle is a nonempty word of handle characters. -/
def isHandle (cs : List Char) : Bool := !cs.isEmpty && cs.all isHandleChar

/-- An email address has one at-sign with something before it, and behind it a domain with a point
inside and none at either end; white space occurs nowhere. -/
def isEmail (cs : List Char) : Bool :=
  match cutAt '@' cs with
  | none => false
  | some (localPart, domain) =>
    !localPart.isEmpty && !domain.contains '@' && domain.contains '.' &&
      domain.head? != some '.' && domain.getLast? != some '.' && !cs.any isWhiteSpace

/-- The form of the word behind the handle sign: a team has exactly one slash. -/
def classifyHandle (cs : List Char) : OwnerKind :=
  match cutAt '/' cs with
  | some (org, team) => if isHandle org && isHandle team then .team else .invalid
  | none => if isHandle cs then .user else .invalid

/-- The form of a word. -/
def classify : List Char → OwnerKind
  | [] => .invalid
  | c :: cs =>
    if c = handleSign then classifyHandle cs
    else if isEmail (c :: cs) then .email else .invalid

/-- The owner that a word names. -/
def Owner.ofText (raw : String) : Owner := ⟨raw, classify raw.toList⟩

/-- The text without one handle sign in front of it. -/
def dropHandleSign (s : String) : String :=
  match s.toList with
  | [] => s
  | c :: cs => if c = handleSign then String.ofList cs else s

/-- What the owner is called: users and teams without the handle sign, all else as written. -/
def Owner.name (o : Owner) : String :=
  match o.kind with
  | .user | .team => dropHandleSign o.raw
  | .email | .invalid => o.raw

/-- Holds of the owners of a known form. -/
def Owner.isValid (o : Owner) : Bool := o.kind != .invalid

end Ownership
