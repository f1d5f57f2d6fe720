import ReactiveTemplate.Number.Shortest

/-!
# Written numbers

The texts of a double. Each is the shortest decimal of the number
(`Number.shortest`) laid out by a format:

* `positional`: never an exponent, the sign of zero kept.
* `displayed`: as a page shows it, `-0` being `0`.
* `literal`: with a point or an exponent, so that a reader sees a double.
* `inDocument`: the number of a JSON document.

Of two equally near decimals a document has the one with an even last digit, the other
formats the greater one.
-/

namespace ReactiveTemplate.Number

/-- `c * 10 ^ k` written without an exponent. -/
def layOut (c : Nat) (k : Int) : String :=
  let digits := (Nat.repr c).toList
  if 0 ≤ k then
    String.ofList (digits ++ List.replicate k.toNat '0')
  else
    let places := (-k).toNat
    if places < digits.length then
      let whole := digits.length - places
      String.ofList (digits.take whole ++ '.' :: digits.drop whole)
    else
      String.ofList ('0' :: '.' :: List.replicate (places - digits.length) '0' ++ digits)

/-- `c * 10 ^ k` with one digit before the point and an exponent, `plus` being the sign of
    an exponent that is not negative. -/
def layOutScientific (plus : String) (c : Nat) (k : Int) : String :=
  let digits := (Nat.repr c).toList
  let exponent := k + Int.ofNat digits.length - 1
  let rest := if digits.length ≤ 1 then [] else '.' :: digits.drop 1
  let sign := if exponent < 0 then "" else plus
  String.ofList (digits.take 1 ++ rest) ++ "e" ++ sign ++ toString exponent

/-- The place of the decimal point of `c * 10 ^ k`, counted from the first
    digit: `1` for a single digit before the point. -/
def pointPlace (c : Nat) (k : Int) : Int :=
  k + Int.ofNat (Nat.repr c).length

/-- The text of a sign. -/
def signed (negative : Bool) (text : String) : String :=
  if negative then "-" ++ text else text

/-- The texts of what is not a finite number. -/
def unbounded (negative : Bool) : String := signed negative "Infinity"

/-- The digits of a number, never with an exponent: `100000000000000000000000`,
    `0.0000001`, and `-0` for the negative zero. -/
def positional (x : Float) : String :=
  match Binary.ofFloat x with
  | .nan => "NaN"
  | .infinite negative => unbounded negative
  | .finite negative 0 _ => signed negative "0"
  | .finite negative m q =>
    let (c, k) := shortest .up m q
    signed negative (layOut c k)

/-- A number as a page shows it: `2`, `0.5`, `NaN`, `Infinity`, and `0` for both
    zeros. -/
def displayed (x : Float) : String :=
  match Binary.ofFloat x with
  | .finite _ 0 _ => "0"
  | _ => positional x

/-- A number that keeps a mark of being a double: `1.0`, `0.5`, and an exponent
    from `1e16` on and below `1e-4`. -/
def literal (x : Float) : String :=
  match Binary.ofFloat x with
  | .nan => "NaN"
  | .infinite negative => signed negative "inf"
  | .finite negative 0 _ => signed negative "0.0"
  | .finite negative m q =>
    let (c, k) := shortest .up m q
    let place := pointPlace c k
    signed negative <|
      if 16 < place ∨ place < -3 then layOutScientific "" c k
      else if 0 ≤ k then layOut c k ++ ".0"
      else layOut c k

/-- A number that is no integer of a JSON document: positional below `1e16` and
    from `0.00001` on, with a signed exponent elsewhere. -/
def inDocument (x : Float) : String :=
  match Binary.ofFloat x with
  | .nan | .infinite _ => "null"
  | .finite negative 0 _ => signed negative "0.0"
  | .finite negative m q =>
    let (c, k) := shortest .even m q
    let place := pointPlace c k
    signed negative <|
      if 16 < place ∨ place < -4 then layOutScientific "+" c k
      else if 0 ≤ k then layOut c k ++ ".0"
      else layOut c k

end ReactiveTemplate.Number
