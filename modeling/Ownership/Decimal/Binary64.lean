/-
# Double-precision numbers

A nonnegative double is `m · 2 ^ q` with a mantissa below `2 ^ 53` and an exponent from -1074 up.
All rounding here is exact arithmetic on natural numbers, and powers are `Nat.pow` by name, so that
they compute the same whatever else is in scope.

* `Binary64.ofQuotient?` rounds a quotient to the nearest double, ties to the even mantissa;
* `Binary64.bits` is the standard encoding.
-/

namespace Ownership

/-- A nonnegative double `mantissa · 2 ^ (power - 1074)`.  The mantissa is below `2 ^ 53`, and below
`2 ^ 52` only when the power is zero. -/
structure Binary64 where
  mantissa : Nat
  power : Nat
  deriving DecidableEq, Repr

namespace Binary64

/-- The quotient rounded to the nearest natural number, ties to even. -/
def roundHalfEven (num den : Nat) : Nat :=
  let q := num / den
  let r := num % den
  if 2 * r < den then q
  else if den < 2 * r then q + 1
  else q + q % 2

/-- The numerator and denominator of `num / den` in units of `2 ^ (power - 1074)`. -/
def inUnits (num den power : Nat) : Nat × Nat :=
  if power ≤ 1074 then (num * Nat.pow 2 (1074 - power), den)
  else (num, den * Nat.pow 2 (power - 1074))

/-- A power whose unit leaves a quotient of 52 to 54 bits, or zero if the quotient is too small. -/
def roughPower (num den : Nat) : Nat := num.log2 + 1074 - 53 - den.log2

/-- The power whose unit leaves a quotient of at most 53 bits. -/
def powerOf (num den : Nat) : Nat :=
  let p := roughPower num den
  let (n, d) := inUnits num den p
  if n / d ≥ Nat.pow 2 53 then p + 1 else p

/-- The greatest power of a finite double. -/
def maxPower : Nat := 2045

/-- The double zero. -/
def zero : Binary64 := ⟨0, 0⟩

/-- The double one. -/
def one : Binary64 := ⟨Nat.pow 2 52, 1022⟩

/-- The double with a mantissa of at most `2 ^ 53`; where that is reached, at the next power. -/
def ofRounded (m power : Nat) : Binary64 :=
  if m < Nat.pow 2 53 then ⟨m, power⟩ else ⟨Nat.pow 2 52, power + 1⟩

/-- The double nearest to `num / den`, if it is finite. -/
def ofQuotient? (num den : Nat) : Option Binary64 :=
  if num = 0 then some zero
  else
    let p := powerOf num den
    let (n, d) := inUnits num den p
    let x := ofRounded (roundHalfEven n d) p
    if x.power > maxPower then none else some x

/-- The encoding of a double: eleven bits of exponent above fifty-two of the mantissa. -/
def bits (x : Binary64) : Nat := x.power * Nat.pow 2 52 + x.mantissa

/-- The encoding of a double in sixteen hexadecimal digits. -/
def bitsText (x : Binary64) : String :=
  let digits := Nat.toDigits 16 x.bits
  String.ofList (List.replicate (16 - digits.length) '0' ++ digits)

end Binary64

end Ownership
