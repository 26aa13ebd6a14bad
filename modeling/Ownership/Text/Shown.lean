/-
# Bytes shown as text

Bytes that need not be UTF-8 can be shown all the same.  Where no character can be read, the bytes
that could have begun one give a single mark, and reading goes on with the byte behind them.

* `Begun` is a character that has begun, and `begun?` what a byte begins;
* `shown` is the text that bytes are shown as.
-/

namespace Ownership.Text

/-! ## 1. Characters that have begun -/

/-- The mark in place of what is no character. -/
def replacement : Char := '\ufffd'

/-- A character that has begun: how many bytes are to come, between which values the next of them
must be, and the value of those before. -/
structure Begun where
  left : Nat
  least : UInt8
  most : UInt8
  value : Nat
  deriving DecidableEq, Repr

/-- What a byte begins, if a character can begin with it.  The bounds of the second byte leave out
long spellings, surrogates and what lies above the last character. -/
def begun? (b : UInt8) : Option Begun :=
  if b ≤ 0x7F then some ⟨0, 0x80, 0xBF, b.toNat⟩
  else if 0xC2 ≤ b && b ≤ 0xDF then some ⟨1, 0x80, 0xBF, b.toNat % 0x20⟩
  else if b == 0xE0 then some ⟨2, 0xA0, 0xBF, 0x0⟩
  else if b == 0xED then some ⟨2, 0x80, 0x9F, 0xD⟩
  else if 0xE1 ≤ b && b ≤ 0xEF then some ⟨2, 0x80, 0xBF, b.toNat % 0x10⟩
  else if b == 0xF0 then some ⟨3, 0x90, 0xBF, 0x0⟩
  else if 0xF1 ≤ b && b ≤ 0xF3 then some ⟨3, 0x80, 0xBF, b.toNat % 0x8⟩
  else if b == 0xF4 then some ⟨3, 0x80, 0x8F, 0x4⟩
  else none

namespace Begun

/-- The character with one byte more, if that byte can stand there. -/
def take? (c : Begun) (b : UInt8) : Option Begun :=
  if c.least ≤ b && b ≤ c.most then
    some ⟨c.left - 1, 0x80, 0xBF, c.value * 0x40 + b.toNat % 0x40⟩
  else none

/-- The character if it is complete, and otherwise what has begun. -/
def settle (c : Begun) : List Char × Option Begun :=
  if c.left = 0 then ([Char.ofNat c.value], none) else ([], some c)

end Begun

/-! ## 2. Texts -/

/-- What one byte adds to the text, and what has begun behind it. -/
def shownStep (c : Option Begun) (b : UInt8) : List Char × Option Begun :=
  match c.bind (·.take? b) with
  | some d => d.settle
  | none =>
    let cut := if c.isSome then [replacement] else []
    match begun? b with
    | none => (cut ++ [replacement], none)
    | some d => (cut ++ d.settle.1, d.settle.2)

/-- The text that further bytes are shown as. -/
def shownFrom (c : Option Begun) : List UInt8 → List Char
  | [] => if c.isSome then [replacement] else []
  | b :: bs => (shownStep c b).1 ++ shownFrom (shownStep c b).2 bs

/-- The text that bytes are shown as. -/
def shown (bs : List UInt8) : List Char := shownFrom none bs

end Ownership.Text
