/-
# Shortest decimals

The fewest decimal digits that are nearest to one double and to no other.

* `Binary64.shortest` are these digits, with the place of the point;
* `Binary64.toText` writes them positionally.
-/
import Ownership.Decimal.Binary64

namespace Ownership.Binary64

/-! ## 1. The interval of a double -/

/-- A nonnegative rational, by numerator and denominator. -/
structure Ratio where
  num : Nat
  den : Nat

/-- Four times the value of a mantissa at a power, divided by four. -/
def quarters (fourfold power : Nat) : Ratio :=
  if power ≤ 1074 then ⟨fourfold, 4 * Nat.pow 2 (1074 - power)⟩
  else ⟨fourfold * Nat.pow 2 (power - 1074), 4⟩

/-- The value of a double. -/
def value (x : Binary64) : Ratio := quarters (4 * x.mantissa) x.power

/-- The upper end of the reals that round to a double. -/
def upper (x : Binary64) : Ratio := quarters (4 * x.mantissa + 2) x.power

/-- The lower end of the reals that round to a double; below a power of two the doubles are twice
as dense. -/
def lower (x : Binary64) : Ratio :=
  if x.mantissa = Nat.pow 2 52 ∧ x.power > 0 then quarters (4 * x.mantissa - 1) x.power
  else quarters (4 * x.mantissa - 2) x.power

/-- Holds if the decimal `d · 10 ^ k / 10 ^ j` rounds to the double; the ends count if the mantissa
is even. -/
def roundsTo (x : Binary64) (d k j : Nat) : Bool :=
  let lo := x.lower
  let hi := x.upper
  let num := d * Nat.pow 10 k
  let den := Nat.pow 10 j
  if x.mantissa % 2 = 0 then lo.num * den ≤ num * lo.den && num * hi.den ≤ hi.num * den
  else lo.num * den < num * lo.den && num * hi.den < hi.num * den

/-! ## 2. Digits -/

/-- Decimal digits with the point behind the first `point` of them; zeros fill what is missing. -/
structure Digits where
  digits : List Char
  point : Int
  deriving DecidableEq, Repr

/-- How many zeros follow the point before the first digit of a ratio below one. -/
def leadingZeros (r : Ratio) : Nat :=
  ((List.range 400).find? fun j => r.den ≤ r.num * Nat.pow 10 (j + 1)).getD 0

/-- Where the point of a positive ratio stands, counted in digits from the first. -/
def pointOf (r : Ratio) : Int :=
  if r.num ≥ r.den then (Nat.toDigits 10 (r.num / r.den)).length else - (leadingZeros r : Int)

/-- The digits of a natural number without the zeros at the end. -/
def significant (d : Nat) : List Char :=
  ((Nat.toDigits 10 d).reverse.dropWhile (· == '0')).reverse

/-- The digits that stand for `d` in units of the place `point - n`. -/
def Digits.ofNat (d n : Nat) (point : Int) : Digits :=
  ⟨significant d, point + ((Nat.toDigits 10 d).length : Int) - n⟩

/-- The nearest of the two decimals with `n` digits beside a double that round to it, if one does;
of two that are equally near, the upper. -/
def withDigits? (x : Binary64) (point : Int) (n : Nat) : Option Digits :=
  let v := x.value
  let k := (point - n).toNat
  let j := (n - point).toNat
  let num := v.num * Nat.pow 10 j
  let den := v.den * Nat.pow 10 k
  let d := num / den
  let below := x.roundsTo d k j
  let above := x.roundsTo (d + 1) k j
  let takeAbove := above && (!below || den ≤ 2 * (num % den))
  if takeAbove then some (Digits.ofNat (d + 1) n point)
  else if below then some (Digits.ofNat d n point)
  else none

/-- The fewest digits that round to a positive double. -/
def shortest (x : Binary64) : Digits :=
  let point := pointOf x.value
  ((List.range 17).findSome? fun i => x.withDigits? point (i + 1)).getD ⟨['0'], 1⟩

/-! ## 3. Text -/

/-- The digits written positionally, with at least one digit on each side of the point. -/
def Digits.toText (d : Digits) : String :=
  let n := d.digits.length
  String.ofList <|
    if d.point ≤ 0 then '0' :: '.' :: List.replicate (-d.point).toNat '0' ++ d.digits
    else if d.point.toNat ≥ n then
      d.digits ++ List.replicate (d.point.toNat - n) '0' ++ ['.', '0']
    else d.digits.take d.point.toNat ++ '.' :: d.digits.drop d.point.toNat

/-- A double written positionally with the fewest digits, and at least one behind the point. -/
def toText (x : Binary64) : String := if x.mantissa = 0 then "0.0" else x.shortest.toText

end Ownership.Binary64
