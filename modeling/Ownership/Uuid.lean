/-
# Identifiers by name

A UUID of version 5 is the first half of a hash over a name space, itself a UUID, and a name.  The
same name in the same name space always has the same identifier.

* `Uuid.ofName` is the identifier of a name;
* `Uuid.toText` and `Uuid.ofText?` write and read the usual form with hyphens.
-/
import Ownership.Digest.Sha1

namespace Ownership

/-- A universally unique identifier, by its sixteen bytes. -/
structure Uuid where
  bytes : List UInt8
  deriving DecidableEq, Repr

namespace Uuid

/-! ## 1. From names -/

/-- The bytes of a hash with version 5 and the standard variant stamped on them. -/
def stamp (hash : List UInt8) : List UInt8 :=
  hash.zipIdx.map fun (b, i) =>
    if i = 6 then (b &&& 0x0F) ||| 0x50
    else if i = 8 then (b &&& 0x3F) ||| 0x80
    else b

/-- The identifier of a name. -/
def ofName (space : Uuid) (name : String) : Uuid :=
  ⟨stamp ((Sha1.digest (space.bytes.foldl ByteArray.push .empty ++ name.toUTF8)).take 16)⟩

/-- The name space of URLs. -/
def urlSpace : Uuid :=
  ⟨[0x6b, 0xa7, 0xb8, 0x11, 0x9d, 0xad, 0x11, 0xd1, 0x80, 0xb4, 0x00, 0xc0, 0x4f, 0xd4, 0x30,
    0xc8]⟩

/-! ## 2. Text -/

/-- A hexadecimal digit, of the lower letters. -/
def hexDigit (n : Nat) : Char := Nat.digitChar n

/-- The two hexadecimal digits of a byte. -/
def byteDigits (b : UInt8) : List Char := [hexDigit (b.toNat / 16), hexDigit (b.toNat % 16)]

/-- The usual form: 8, 4, 4, 4 and 12 digits with hyphens between them. -/
def toText (u : Uuid) : String :=
  String.ofList <| u.bytes.zipIdx.flatMap fun (b, i) =>
    (if i = 4 ∨ i = 6 ∨ i = 8 ∨ i = 10 then ['-'] else []) ++ byteDigits b

/-- The value of a hexadecimal digit, of either case. -/
def hexValue? (c : Char) : Option Nat :=
  if c.isDigit then some (c.toNat - '0'.toNat)
  else if 'a' ≤ c ∧ c ≤ 'f' then some (c.toNat - 'a'.toNat + 10)
  else if 'A' ≤ c ∧ c ≤ 'F' then some (c.toNat - 'A'.toNat + 10)
  else none

/-- Pairs of hexadecimal digits as bytes. -/
def hexBytes? : List Char → Option (List UInt8)
  | [] => some []
  | [_] => none
  | c :: d :: cs => do
    let hi ← hexValue? c
    let lo ← hexValue? d
    let rest ← hexBytes? cs
    some (UInt8.ofNat (16 * hi + lo) :: rest)

/-- Reads thirty-two hexadecimal digits, with any hyphens between them. -/
def ofText? (text : String) : Option Uuid := do
  let bytes ← hexBytes? (text.toList.filter (· != '-'))
  if bytes.length = 16 then some ⟨bytes⟩ else none

end Uuid

end Ownership
