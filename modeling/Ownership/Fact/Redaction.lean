/-
# Redaction

What facts must not show: the time of a run and how long it took, and the email addresses of owners.

* `Redaction.zeroTimes` takes times out of a value;
* `Redaction.maskEmails` takes the addresses of owners out of it.
-/
import Ownership.Json
import Ownership.Owner

namespace Ownership.Redaction

/-- The time stamp that stands for no time. -/
def zeroTime : String := "1970-01-01T00:00:00Z"

/-- What stands in place of an email address. -/
def mask : String := "***"

/-! ## 1. Times -/

/-- The members of a fact with the time zeroed and the duration dropped. -/
def zeroTimesIn (ms : Members) : Members := (ms.set "ts" (.text zeroTime)).erase "duration_ms"

/-- The value with its time zeroed and its duration dropped, if it is an object. -/
def zeroTimes : Json → Json
  | .object ms => .object (zeroTimesIn ms)
  | v => v

/-! ## 2. Replacing a text -/

/-- The text in which every occurrence of `old` has become `new`, the first `skip` characters left
out. -/
def replaceFrom (old new : List Char) (skip : Nat) : List Char → List Char
  | [] => []
  | c :: cs =>
    match skip with
    | n + 1 => replaceFrom old new n cs
    | 0 =>
      if old.isPrefixOf (c :: cs) then new ++ replaceFrom old new (old.length - 1) cs
      else c :: replaceFrom old new 0 cs

/-- The text in which every occurrence of the nonempty text `old`, taken from the left, has become
`new`. -/
def replace (old new text : String) : String :=
  String.ofList (replaceFrom old.toList new.toList 0 text.toList)

/-! ## 3. Addresses -/

/-- Holds of an owner that is an email address. -/
def isAddress (raw : String) : Bool := (Owner.ofText raw).kind == .email

/-- The owner, masked if it is an email address. -/
def maskOwner (raw : String) : String := if isAddress raw then mask else raw

/-- The value, masked if it is the text of an email address. -/
def maskText : Json → Json
  | .text s => .text (maskOwner s)
  | v => v

/-- The list of owners with its addresses masked, if it is a list. -/
def maskItems : Json → Json
  | .array items => .array (items.map maskText)
  | v => v

/-- The text with an address in it masked, if it is a text. -/
def maskWithin (address : String) : Json → Json
  | .text s => .text (replace address mask s)
  | v => v

/-- The email address under the owner of a fact, if there is one. -/
def address? (ms : Members) : Option String :=
  match ms.get? "owner" with
  | some (.text s) => if isAddress s then some s else none
  | _ => none

/-- The members of a fact with the addresses of owners masked: under the owner, in the list of
owners, and the owner's own address in the message. -/
def maskEmailsIn (ms : Members) : Members :=
  let named :=
    match address? ms with
    | none => ms
    | some a => (ms.update "owner" maskText).update "message" (maskWithin a)
  named.update "owners" maskItems

/-- The value with the addresses of owners masked, if it is an object. -/
def maskEmails : Json → Json
  | .object ms => .object (maskEmailsIn ms)
  | v => v

end Ownership.Redaction
