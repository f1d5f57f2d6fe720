import ReactiveTemplate.Number.Binary
import ReactiveTemplate.Text.Blank

/-!
# Numbers read from text

A decimal is digits times a power of ten; it reads as the nearest double. Two
readers use that: the literals of the expression grammar, and the numeric value
of any text of the state.

* `Decimal.toFloat`: the nearest double of a decimal.
* `decimal?`: reads a signed decimal with an optional fraction and exponent.
* `ofText`: the numeric value of a text.
-/

namespace ReactiveTemplate.Number

/-- The number `coefficient * 10 ^ exponent` with a sign. -/
structure Decimal where
  negative : Bool
  coefficient : Nat
  exponent : Int
  deriving Repr, DecidableEq

/-- The value of a digit character. -/
def digitValue (c : Char) : Nat := c.toNat - 48

/-- The number that a run of digits spells. -/
def ofDigits (digits : List Char) : Nat :=
  digits.foldl (fun n c => 10 * n + digitValue c) 0

/-- The double nearest to a decimal. What lies far outside the range of doubles is
    settled by its size, so that no huge power of ten is formed. -/
def Decimal.toFloat (d : Decimal) : Float :=
  if d.coefficient = 0 then
    ofWord d.negative 0
  else
    let size := d.exponent + Int.ofNat (Nat.repr d.coefficient).length
    if 400 < size then ofWord d.negative infinityWord
    else if size < -400 then ofWord d.negative 0
    else
      ofWord d.negative
        (magnitudeBits (d.coefficient * Nat.pow 10 d.exponent.toNat)
          (Nat.pow 10 (-d.exponent).toNat))

/-- The decimal of an integer part and a fraction, both runs of digits. -/
def Decimal.ofParts (negative : Bool) (whole fraction : List Char) (exponent : Int) : Decimal :=
  ⟨negative, ofDigits (whole ++ fraction), exponent - Int.ofNat fraction.length⟩

/-- Splits off a leading sign: whether it is a minus, and the rest. -/
def takeSign : List Char → Bool × List Char
  | '-' :: rest => (true, rest)
  | '+' :: rest => (false, rest)
  | rest => (false, rest)

/-- Reads what may follow the digits of a decimal: nothing, or `e` and an integer. -/
def exponent? : List Char → Option Int
  | [] => some 0
  | c :: rest =>
    if c = 'e' ∨ c = 'E' then
      let (negative, digits) := takeSign rest
      if digits ≠ [] ∧ digits.all Char.isDigit then
        some (if negative then -Int.ofNat (ofDigits digits) else Int.ofNat (ofDigits digits))
      else none
    else none

/-- Reads a whole text as a decimal: a sign, digits with an optional point among,
    before or after them, and an optional exponent. -/
def decimal? (text : List Char) : Option Decimal :=
  let (negative, unsigned) := takeSign text
  let whole := unsigned.takeWhile Char.isDigit
  let (fraction, rest) :=
    match unsigned.dropWhile Char.isDigit with
    | '.' :: rest => (rest.takeWhile Char.isDigit, rest.dropWhile Char.isDigit)
    | rest => ([], rest)
  if whole = [] ∧ fraction = [] then none
  else (exponent? rest).map (Decimal.ofParts negative whole fraction)

/-- Whether a character can only be part of a word: a letter other than the mark of
    an exponent. -/
def isWordLetter (c : Char) : Bool := c.isAlpha && c != 'e' && c != 'E'

/-- The numeric value of a text: zero if blank, the infinities by name, the decimal
    it spells, and otherwise not a number. -/
def ofText (text : String) : Float :=
  let chars := Text.trimChars text.toList
  if chars = [] then 0
  else if chars = "Infinity".toList ∨ chars = "+Infinity".toList then ofWord false infinityWord
  else if chars = "-Infinity".toList then ofWord true infinityWord
  else if chars.any isWordLetter then nan
  else (decimal? chars).elim nan Decimal.toFloat

end ReactiveTemplate.Number
