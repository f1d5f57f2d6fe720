import ReactiveTemplate.Text.Inkless

/-!
# Quoted text

A text between double quotes in which every character can be seen: the quote and
the backslash are written after a backslash, the common controls by their letter,
and a character without a glyph of its own by its number.

* `quote`: the quoted form of a text.
-/

namespace ReactiveTemplate.Text

/-- The hexadecimal digits of a number, in lower case. -/
def hexadecimal (n : Nat) : List Char := Nat.toDigits 16 n

/-- The quoted form of one character. -/
def quoteChar (c : Char) : List Char :=
  if c = '"' ∨ c = '\\' then ['\\', c]
  else if c = '\t' then ['\\', 't']
  else if c = '\r' then ['\\', 'r']
  else if c = '\n' then ['\\', 'n']
  else if c.toNat = 0 then ['\\', '0']
  else if isInkless c then '\\' :: 'u' :: '\x7b' :: (hexadecimal c.toNat ++ ['\x7d'])
  else [c]

/-- A text between double quotes. -/
def quote (text : String) : String :=
  String.ofList ('"' :: (text.toList.flatMap quoteChar ++ ['"']))

end ReactiveTemplate.Text
