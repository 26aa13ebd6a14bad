/-
# JSON values

The values that facts are made of.  The members of an object keep the order in which they were
written; what reads an object asks for a member by its key.

* `Json.compact` writes a value on one line, the members of objects in the order of their keys.
-/

namespace Ownership

/-! ## 1. Values -/

/-- A JSON value; a number is `mantissa · 10 ^ (-decimals)`. -/
inductive Json where
  | null
  | bool (b : Bool)
  | number (mantissa : Int) (decimals : Nat)
  | text (s : String)
  | array (items : List Json)
  | object (members : List (String × Json))
  deriving Repr, Inhabited

/-- The members of an object. -/
abbrev Members := List (String × Json)

namespace Json

/-- A natural number. -/
def nat (n : Nat) : Json := .number n 0

/-- A list of texts. -/
def texts (ss : List String) : Json := .array (ss.map .text)

end Json

namespace Members

/-- The value of a member, if there is one. -/
def get? (ms : Members) (key : String) : Option Json := ms.lookup key

/-- The members with one of them set: in its place if it is there, else behind the others. -/
def set : Members → String → Json → Members
  | [], key, v => [(key, v)]
  | (k, w) :: ms, key, v => if k = key then (k, v) :: ms else (k, w) :: set ms key v

/-- The members with one of them set unless it is there. -/
def setNew (ms : Members) (key : String) (v : Json) : Members :=
  if (ms.get? key).isSome then ms else ms.set key v

/-- The members with all of `more` set. -/
def setAll (ms more : Members) : Members := more.foldl (fun ms (k, v) => ms.set k v) ms

/-- The members without those under a key. -/
def erase (ms : Members) (key : String) : Members := ms.filter fun m => m.1 != key

/-- The members with the value under a key changed. -/
def update (ms : Members) (key : String) (f : Json → Json) : Members :=
  ms.map fun (k, v) => if k = key then (k, f v) else (k, v)

end Members

namespace Json

/-! ## 2. Text -/

/-- A hexadecimal digit, of the lower letters. -/
def hexDigit (n : Nat) : Char := Nat.digitChar n

/-- A character inside a quoted text: quotes, backslashes and control characters are escaped. -/
def escapeChar (c : Char) : List Char :=
  match c with
  | '"' => ['\\', '"']
  | '\\' => ['\\', '\\']
  | '\x08' => ['\\', 'b']
  | '\t' => ['\\', 't']
  | '\n' => ['\\', 'n']
  | '\x0c' => ['\\', 'f']
  | '\r' => ['\\', 'r']
  | c =>
    if c.toNat < 0x20 then
      ['\\', 'u', '0', '0', hexDigit (c.toNat / 16), hexDigit (c.toNat % 16)]
    else [c]

/-- A text in quotes. -/
def quote (s : String) : String := "\"" ++ String.ofList (s.toList.flatMap escapeChar) ++ "\""

/-- A number with its decimals. -/
def numberText (mantissa : Int) (decimals : Nat) : String :=
  if decimals = 0 then toString mantissa
  else
    let digits := Nat.toDigits 10 mantissa.natAbs
    let padded := List.replicate (decimals + 1 - digits.length) '0' ++ digits
    let whole := padded.take (padded.length - decimals)
    let part := padded.drop (padded.length - decimals)
    (if mantissa < 0 then "-" else "") ++ String.ofList whole ++ "." ++ String.ofList part

/-- The members in the order of their keys. -/
def sortMembers {α : Type} (ms : List (String × α)) : List (String × α) :=
  ms.mergeSort fun m n => decide (m.1 ≤ n.1)

mutual

/-- The value on one line, without blanks. -/
def compact : Json → String
  | .null => "null"
  | .bool true => "true"
  | .bool false => "false"
  | .number m d => numberText m d
  | .text s => quote s
  | .array items => "[" ++ ",".intercalate (compactItems items) ++ "]"
  | .object members =>
    let written := sortMembers (compactMembers members)
    "\x7b" ++ ",".intercalate (written.map fun (k, v) => quote k ++ ":" ++ v) ++ "\x7d"

/-- Each item on one line. -/
def compactItems : List Json → List String
  | [] => []
  | v :: vs => compact v :: compactItems vs

/-- Each member's key, with its value on one line. -/
def compactMembers : List (String × Json) → List (String × String)
  | [] => []
  | (k, v) :: ms => (k, compact v) :: compactMembers ms

end

end Json

end Ownership
