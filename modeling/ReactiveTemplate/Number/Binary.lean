/-!
# Doubles as exact numbers

A finite double is a natural number times a power of two. This module reads a
double into that form and rounds an exact quotient back to the nearest double,
so that every conversion between text and number is integer arithmetic.

* `Binary.ofFloat`: the parts of a double.
* `magnitudeBits`: the word of the double nearest to a positive quotient, a tie
  going to the even neighbour.
-/

namespace ReactiveTemplate.Number

/-- What a double stands for: no number, an infinity, or
    `mantissa * 2 ^ exponent` with a sign. -/
inductive Binary where
  | nan
  | infinite (negative : Bool)
  | finite (negative : Bool) (mantissa : Nat) (exponent : Int)
  deriving Repr, DecidableEq

/-- The exponent of the least positive double, as a power of two. -/
def leastExponent : Int := -1074

/-- The word of positive infinity. -/
def infinityWord : Nat := 0x7FF0000000000000

/-- The parts of a double, read off its 64-bit word. -/
def Binary.ofFloat (x : Float) : Binary :=
  let word := x.toBits.toNat
  let negative := decide (Nat.pow 2 63 ≤ word)
  let field := word / Nat.pow 2 52 % Nat.pow 2 11
  let fraction := word % Nat.pow 2 52
  if field = 2047 then
    if fraction = 0 then .infinite negative else .nan
  else if field = 0 then
    .finite negative fraction leastExponent
  else
    .finite negative (Nat.pow 2 52 + fraction) (Int.ofNat field - 1075)

/-- `num / den` rounded to the nearest natural number, a tie going to the even
    one. -/
def roundHalfEven (num den : Nat) : Nat :=
  let quotient := num / den
  let twice := 2 * (num % den)
  if twice < den then quotient
  else if den < twice then quotient + 1
  else if quotient % 2 = 0 then quotient
  else quotient + 1

/-- `num / den / 2 ^ exponent` as a fraction. -/
def scaleDown (num den : Nat) (exponent : Int) : Nat × Nat :=
  (num * Nat.pow 2 (-exponent).toNat, den * Nat.pow 2 exponent.toNat)

/-- The power of two that leaves a quotient `num / den` with 53 binary digits
    before the point, or the least one if the quotient is too small for that. -/
def unitExponent (num den : Nat) : Int :=
  let first : Int := Int.ofNat num.log2 - Int.ofNat den.log2 - 53
  let (n, d) := scaleDown num den first
  max leastExponent (if d * Nat.pow 2 53 ≤ n then first + 1 else first)

/-- The word of the double nearest to the positive quotient `num / den`. A
    mantissa that rounds up to `2 ^ 53` carries into the exponent field, and
    what is too large becomes infinity. -/
def magnitudeBits (num den : Nat) : Nat :=
  let exponent := unitExponent num den
  let (n, d) := scaleDown num den exponent
  min infinityWord ((exponent - leastExponent).toNat * Nat.pow 2 52 + roundHalfEven n d)

/-- The double with the given sign and magnitude word. -/
def ofWord (negative : Bool) (magnitude : Nat) : Float :=
  Float.ofBits (UInt64.ofNat (if negative then Nat.pow 2 63 + magnitude else magnitude))

/-- Positive infinity. -/
def infinity : Float := ofWord false infinityWord

/-- The value of a comparison or sum that has no number. -/
def nan : Float := Float.ofBits 0x7FF8000000000000

end ReactiveTemplate.Number
