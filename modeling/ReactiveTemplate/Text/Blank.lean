/-!
# White space

The characters with the property White_Space, and cutting them off the ends of a
text.

* `trim_eq`: what `trim` leaves, as a list of characters.
-/

namespace ReactiveTemplate.Text

/-- The characters with the property White_Space, twenty-five in all. -/
def blanks : List Nat :=
  [0x09, 0x0A, 0x0B, 0x0C, 0x0D, 0x20, 0x85, 0xA0, 0x1680,
   0x2000, 0x2001, 0x2002, 0x2003, 0x2004, 0x2005, 0x2006, 0x2007, 0x2008, 0x2009, 0x200A,
   0x2028, 0x2029, 0x202F, 0x205F, 0x3000]

/-- Whether a character is white space. -/
def isBlank (c : Char) : Bool := blanks.contains c.toNat

/-- The characters of a text without the white space at either end. -/
def trimChars (cs : List Char) : List Char :=
  ((cs.dropWhile isBlank).reverse.dropWhile isBlank).reverse

/-- A text without the white space at either end. -/
def trim (text : String) : String := String.ofList (trimChars text.toList)

theorem trim_eq (text : String) : (trim text).toList = trimChars text.toList := by
  simp [trim]

end ReactiveTemplate.Text
