/-
# What a plain scalar reads as

A YAML scalar without quotes is a null, a boolean, a number or a text, depending on how it looks.

* `Plain.ofText` reads a scalar;
* `unsigned?` reads a natural number below a bound, as a field of that type does;
* `looksNumeric` holds of the texts of digits that are no numbers, since they start with a zero.
-/
import Ownership.Decimal.Binary64

namespace Ownership.Yaml

/-! ## 1. Types -/

/-- A floating-point number. -/
inductive Floating where
  | finite (negative : Bool) (x : Binary64)
  | infinite (negative : Bool)
  | notANumber
  deriving DecidableEq, Repr

/-- What a plain scalar reads as. -/
inductive Plain where
  | null
  | bool (b : Bool)
  | int (n : Int)
  | float (x : Floating)
  | text
  deriving DecidableEq, Repr

/-! ## 2. Words -/

/-- Holds of the spellings of null. -/
def isNullWord (cs : List Char) : Bool :=
  ["null", "Null", "NULL", "~"].any fun w => w.toList == cs

/-- Reads the spellings of the two booleans. -/
def bool? (cs : List Char) : Option Bool :=
  if ["true", "True", "TRUE"].any fun w => w.toList == cs then some true
  else if ["false", "False", "FALSE"].any fun w => w.toList == cs then some false
  else none

/-! ## 3. Integers -/

/-- The value of a digit in a base of at most sixteen. -/
def digit? (base : Nat) (c : Char) : Option Nat :=
  let v :=
    if c.isDigit then c.toNat - '0'.toNat
    else if 'a' ≤ c ∧ c ≤ 'f' then c.toNat - 'a'.toNat + 10
    else if 'A' ≤ c ∧ c ≤ 'F' then c.toNat - 'A'.toNat + 10
    else 16
  if v < base then some v else none

/-- Reads one digit or more. -/
def digits? (base : Nat) (cs : List Char) : Option Nat :=
  if cs.isEmpty then none
  else cs.foldl (fun n c => do return (← n) * base + (← digit? base c)) (some 0)

/-- Reads digits of a number that is at most `max`. -/
def bounded? (base max : Nat) (cs : List Char) : Option Nat :=
  (digits? base cs).filter (· ≤ max)

/-- Holds of a sign or none, a zero and further digits: that is a text and no number. -/
def looksNumeric (cs : List Char) : Bool :=
  let ds := match cs with
    | '+' :: ds | '-' :: ds => ds
    | ds => ds
  match ds with
  | '0' :: d :: ds => (d :: ds).all Char.isDigit
  | _ => false

/-- Reads digits in the base that is written in front of them. -/
def prefixed? (max : Nat) : List Char → Option Nat
  | '0' :: 'x' :: cs => bounded? 16 max cs
  | '0' :: 'o' :: cs => bounded? 8 max cs
  | '0' :: 'b' :: cs => bounded? 2 max cs
  | _ => none

/-- The text without one plus sign in front of it. -/
def dropPlus : List Char → List Char
  | '+' :: cs => cs
  | cs => cs

/-- Reads a number from zero to `max`, with or without a plus sign. -/
def unsigned? (max : Nat) (cs : List Char) : Option Nat :=
  (prefixed? max (dropPlus cs)).or
    (if looksNumeric cs then none else bounded? 10 max (dropPlus cs))

/-- Reads a number with a minus sign whose size is at most `max`. -/
def negative? (max : Nat) : List Char → Option Int
  | '-' :: cs =>
    ((prefixed? max cs).or
      (if looksNumeric ('-' :: cs) then none else bounded? 10 max cs)).map fun n => - (n : Int)
  | _ => none

/-- Reads an integer of at most 128 bits. -/
def int? (cs : List Char) : Option Int :=
  ((unsigned? (Nat.pow 2 128 - 1) cs).map Int.ofNat).or (negative? (Nat.pow 2 127) cs)

/-! ## 4. Floating-point numbers -/

/-- A decimal number: its digits as one number, how many of them stand behind the point, and the
exponent. -/
structure Scientific where
  digits : Nat
  count : Nat
  decimals : Nat
  exponent : Int
  deriving Repr

/-- Reads an exponent: a sign or none, and one digit or more. -/
def exponent? : List Char → Option Int
  | '+' :: cs => (digits? 10 cs).map Int.ofNat
  | '-' :: cs => (digits? 10 cs).map fun n => - (n : Int)
  | cs => (digits? 10 cs).map Int.ofNat

/-- Holds of the letters that open an exponent. -/
def opensExponent (c : Char) : Bool := c == 'e' || c == 'E'

/-- Reads a decimal number without a sign: digits with at most one point among them, at least one
digit, and an exponent or none. -/
def scientific? (cs : List Char) : Option Scientific := do
  let significand := cs.takeWhile fun c => !opensExponent c
  let exponent ← match cs.dropWhile fun c => !opensExponent c with
    | [] => some 0
    | _ :: rest => exponent? rest
  let whole := significand.takeWhile (· != '.')
  let part := (significand.dropWhile (· != '.')).drop 1
  let n ← digits? 10 (whole ++ part)
  some ⟨n, (whole ++ part).length, part.length, exponent⟩

/-- The double nearest to a decimal number, if it is finite.  Exponents far beyond the range of
doubles are decided by the number of digits alone. -/
def Scientific.toBinary64? (s : Scientific) : Option Binary64 :=
  let e := s.exponent - s.decimals
  if s.digits = 0 then some .zero
  else if e > 400 then none
  else if e + s.count < -400 then some .zero
  else if 0 ≤ e then Binary64.ofQuotient? (s.digits * Nat.pow 10 e.toNat) 1
  else Binary64.ofQuotient? s.digits (Nat.pow 10 (-e).toNat)

/-- Reads a finite number, with a minus sign or none. -/
def finite? (cs : List Char) : Option Floating := do
  let (negative, rest) := match cs with
    | '-' :: r => (true, r)
    | r => (false, r)
  let x ← (← scientific? rest).toBinary64?
  some (.finite negative x)

/-- Holds of the spellings of infinity. -/
def isInfinityWord (cs : List Char) : Bool :=
  [".inf", ".Inf", ".INF"].any fun w => w.toList == cs

/-- Holds of the spellings of what is not a number. -/
def isNanWord (cs : List Char) : Bool :=
  [".nan", ".NaN", ".NAN"].any fun w => w.toList == cs

/-- Reads a floating-point number; two signs in a row are none. -/
def float? (cs : List Char) : Option Floating :=
  let unplussed := dropPlus cs
  if cs.head? = some '+' ∧ (unplussed.head? = some '+' ∨ unplussed.head? = some '-') then none
  else if isInfinityWord unplussed then some (.infinite false)
  else if cs.head? = some '-' ∧ isInfinityWord cs.tail then some (.infinite true)
  else if isNanWord cs then some .notANumber
  else finite? unplussed

/-! ## 5. Scalars -/

/-- What a plain scalar reads as; nothing at all is null. -/
def Plain.ofText (cs : List Char) : Plain :=
  if cs.isEmpty || isNullWord cs then .null
  else match bool? cs with
    | some b => .bool b
    | none => match int? cs with
      | some n => .int n
      | none =>
        if looksNumeric cs then .text
        else match float? cs with
          | some x => .float x
          | none => .text

end Ownership.Yaml
