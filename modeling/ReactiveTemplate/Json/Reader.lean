import ReactiveTemplate.Json.Basic
import ReactiveTemplate.Fields
import ReactiveTemplate.Number.Reading
import ReactiveTemplate.Text.Quoted

/-!
# Reading JSON

A reader of JSON documents that says where and why it stops. Each reader takes the
characters that are left and returns what it read with those left after it, or a
`Failure`. A failure remembers the characters left at that moment and how many bytes of
them it has seen, from which `Failure.position` computes line and column.

* `Json.read`: reads a whole text as one document.
* `Failure.message`: the problem and its position.
* `Problem.category`: malformed text, wrong content or a text that ends early.
-/

namespace ReactiveTemplate.Json

/-- A piece of a document as an error message names it. -/
inductive Found where
  | null
  | bool (value : Bool)
  | integer (value : Int)
  | real (value : Float)
  | text (value : String)
  | array
  | object

/-- Why a document cannot be read. -/
inductive Problem where
  | endInValue
  | endInArray
  | endInObject
  | endInText
  | expectedColon
  | expectedArrayEnd
  | expectedObjectEnd
  | expectedWord
  | expectedValue
  | invalidEscape
  | invalidNumber
  | numberOutOfRange
  | controlCharacter
  | nameNotText
  | loneSurrogate
  | unfinishedSurrogate
  | trailingComma
  | trailingCharacters
  | nestedTooDeep
  /-- A value of another kind than the one needed. -/
  | wrongKind (found : Found) (expected : String)
  /-- A value of the right kind that is not allowed. -/
  | wrongValue (found : Found) (expected : String)
  | unknownField (name : String) (known : List String)
  | duplicateField (name : String)

/-- The classes of problems: malformed text, well-formed text with the wrong
    content, text that ends early. -/
inductive Category where
  | malformed
  | content
  | ending
  deriving DecidableEq, Repr

/-- The class of a problem. -/
def Problem.category : Problem → Category
  | .endInValue | .endInArray | .endInObject | .endInText => .ending
  | .wrongKind .. | .wrongValue .. | .unknownField .. | .duplicateField .. => .content
  | _ => .malformed

/-- A found piece in an error message. -/
def Found.describe : Found → String
  | .null => "null"
  | .bool b => "boolean `" ++ (if b then "true" else "false") ++ "`"
  | .integer n => "integer `" ++ toString n ++ "`"
  | .real x => "floating point `" ++ Number.inDocument x ++ "`"
  | .text t => "string " ++ Text.quote t
  | .array => "sequence"
  | .object => "map"

/-- The wording of a problem. -/
def Problem.describe : Problem → String
  | .endInValue => "EOF while parsing a value"
  | .endInArray => "EOF while parsing a list"
  | .endInObject => "EOF while parsing an object"
  | .endInText => "EOF while parsing a string"
  | .expectedColon => "expected `:`"
  | .expectedArrayEnd => "expected `,` or `]`"
  | .expectedObjectEnd => "expected `,` or `\x7d`"
  | .expectedWord => "expected ident"
  | .expectedValue => "expected value"
  | .invalidEscape => "invalid escape"
  | .invalidNumber => "invalid number"
  | .numberOutOfRange => "number out of range"
  | .controlCharacter => "control character (\\u0000-\\u001F) found while parsing a string"
  | .nameNotText => "key must be a string"
  | .loneSurrogate => "lone leading surrogate in hex escape"
  | .unfinishedSurrogate => "unexpected end of hex escape"
  | .trailingComma => "trailing comma"
  | .trailingCharacters => "trailing characters"
  | .nestedTooDeep => "recursion limit exceeded"
  | .wrongKind found expected => "invalid type: " ++ found.describe ++ ", expected " ++ expected
  | .wrongValue found expected => "invalid value: " ++ found.describe ++ ", expected " ++ expected
  | .unknownField name known =>
    "unknown field `" ++ name ++ "`, expected one of " ++
      String.intercalate ", " (known.map fun k => "`" ++ k ++ "`")
  | .duplicateField name => "duplicate field `" ++ name ++ "`"

/-- A problem, the characters left when it was met, and the number of bytes of them that
    were looked at to find it. -/
structure Failure where
  problem : Problem
  rest : List Char
  seen : Nat

/-- Line and column after a number of bytes of a text, the column in bytes, starting from a
    given place. A character of which only some bytes count adds those to the column. -/
def advance : Nat × Nat → Nat → List Char → Nat × Nat
  | place, _, [] => place
  | (line, column), bytes, c :: cs =>
    if bytes < c.utf8Size then (line, column + bytes)
    else if c = '\n' then advance (line + 1, 0) (bytes - 1) cs
    else advance (line, column + c.utf8Size) (bytes - c.utf8Size) cs

/-- The number of bytes of characters. -/
def byteCount (cs : List Char) : Nat := cs.foldl (fun n c => n + c.utf8Size) 0

/-- Line and column of a failure in a text. -/
def Failure.position (failure : Failure) (text : List Char) : Nat × Nat :=
  advance (1, 0) (byteCount text - byteCount failure.rest + failure.seen) text

/-- The problem of a failure with its position in a text. -/
def Failure.message (failure : Failure) (text : List Char) : String :=
  let (line, column) := failure.position text
  failure.problem.describe ++ s!" at line {line} column {column}"

/-- A failure after the characters read so far. -/
def failAt {α : Type} (problem : Problem) (rest : List Char) : Except Failure α :=
  .error ⟨problem, rest, 0⟩

/-- A failure at the next character, of which one byte was looked at. -/
def failAhead {α : Type} (problem : Problem) (rest : List Char) : Except Failure α :=
  .error ⟨problem, rest, 1⟩

/-- Leaves out the white space of JSON. -/
def skipSpace (cs : List Char) : List Char :=
  cs.dropWhile fun c => c = ' ' || c = '\n' || c = '\t' || c = '\r'

/-- Reads the rest of a word whose first character is known. -/
def readWord : List Char → List Char → Except Failure (List Char)
  | [], cs => .ok cs
  | _ :: _, [] => failAt .endInValue []
  | w :: ws, c :: cs => if c = w then readWord ws cs else failAhead .expectedWord (c :: cs)

/-! ## Numbers -/

/-- The largest number that the digits of a document are collected into. -/
def largestWord : Nat := Nat.pow 2 64 - 1

/-- The largest exponent that a document may spell. -/
def largestExponent : Nat := Nat.pow 2 31 - 1

/-- Collects digits into a number as long as it does not pass a limit: the number, and the
    digits that did not fit. -/
def collect (limit : Nat) : Nat → List Char → Nat × List Char
  | n, [] => (n, [])
  | n, c :: cs =>
    let next := 10 * n + Number.digitValue c
    if limit < next then (n, c :: cs) else collect limit next cs

/-- A power of ten as a double. -/
def powerOfTen (k : Nat) : Float := Number.Decimal.toFloat ⟨false, 1, Int.ofNat k⟩

/-- Divides by a power of ten, in steps of at most `10 ^ 308`. -/
def divideByPower : Nat → Float → Nat → Float
  | 0, x, _ => x
  | fuel + 1, x, k =>
    if k ≤ 308 then x / powerOfTen k
    else if x == 0 then x
    else divideByPower fuel (x / powerOfTen 308) (k - 308)

/-- A number of a document that is no integer: its digits as a double, times or
    divided by a power of ten, each step rounded. -/
def scaled? (significand : Nat) (exponent : Int) : Option Float :=
  let x := Number.Decimal.toFloat ⟨false, significand, 0⟩
  if exponent < 0 then some (divideByPower 4 x (-exponent).toNat)
  else if 308 < exponent then if x == 0 then some x else none
  else
    let product := x * powerOfTen exponent.toNat
    if product.isInf then none else some product

/-- The double of a sign, collected digits and a power of ten. -/
def realOf (negative : Bool) (significand : Nat) (exponent : Int) (rest : List Char) :
    Except Failure (Json × List Char) :=
  match scaled? significand exponent with
  | some x => .ok (.real (if negative then -x else x), rest)
  | none => failAt .numberOutOfRange rest

/-- Reads the exponent of a number, after its mark. -/
def readExponent (negative : Bool) (significand : Nat) (exponent : Int) (cs : List Char) :
    Except Failure (Json × List Char) :=
  let (down, digits) := Number.takeSign cs
  match digits with
  | [] => failAt .endInValue []
  | c :: rest =>
    if !c.isDigit then failAhead .invalidNumber (c :: rest)
    else
      let (power, unfit) := collect largestExponent 0 (digits.takeWhile Char.isDigit)
      let rest := digits.dropWhile Char.isDigit
      if unfit ≠ [] ∧ significand ≠ 0 ∧ !down then failAhead .numberOutOfRange (unfit ++ rest)
      else
        let shift := Int.ofNat (if unfit = [] then power else largestExponent)
        realOf negative significand (if down then exponent - shift else exponent + shift) rest

/-- Reads what may follow the digits of a number that is no integer. -/
def readRealEnding (negative : Bool) (significand : Nat) (exponent : Int) (cs : List Char) :
    Except Failure (Json × List Char) :=
  match cs with
  | c :: rest =>
    if c = 'e' ∨ c = 'E' then readExponent negative significand exponent rest
    else realOf negative significand exponent cs
  | [] => realOf negative significand exponent []

/-- Reads the fraction of a number, after its point. -/
def readFraction (negative : Bool) (significand : Nat) (exponent : Int) (cs : List Char) :
    Except Failure (Json × List Char) :=
  let digits := cs.takeWhile Char.isDigit
  let rest := cs.dropWhile Char.isDigit
  if digits = [] then
    failAhead (if rest = [] then .endInValue else .invalidNumber) rest
  else
    let (significand', unfit) := collect largestWord significand digits
    readRealEnding negative significand' (exponent - Int.ofNat (digits.length - unfit.length)) rest

/-- The integer of a sign and collected digits, where the words of a document hold
    it. -/
def integerOf (negative : Bool) (significand : Nat) : Json :=
  if !negative then .integer (Int.ofNat significand)
  else if significand = 0 ∨ Nat.pow 2 63 < significand then
    .real (-(Number.Decimal.toFloat ⟨false, significand, 0⟩))
  else .integer (-Int.ofNat significand)

/-- Reads a number after its sign. -/
def readNumber (negative : Bool) (cs : List Char) : Except Failure (Json × List Char) :=
  match cs with
  | [] => failAt .endInValue []
  | c :: after =>
    if !c.isDigit then failAhead .invalidNumber (c :: after)
    else
      let digits := cs.takeWhile Char.isDigit
      let rest := cs.dropWhile Char.isDigit
      if c = '0' ∧ 1 < digits.length then failAhead .invalidNumber after
      else
        let (significand, unfit) := collect largestWord 0 digits
        let exponent := Int.ofNat unfit.length
        match rest with
        | '.' :: fraction => readFraction negative significand exponent fraction
        | 'e' :: _ | 'E' :: _ => readRealEnding negative significand exponent rest
        | _ =>
          if unfit = [] then .ok (integerOf negative significand, rest)
          else realOf negative significand exponent rest

/-! ## Texts -/

/-- The value of a hexadecimal digit. -/
def hexDigit? (c : Char) : Option Nat :=
  if c.isDigit then some (c.toNat - 48)
  else if 'a' ≤ c ∧ c ≤ 'f' then some (c.toNat - 87)
  else if 'A' ≤ c ∧ c ≤ 'F' then some (c.toNat - 55)
  else none

/-- The number that four characters spell as hexadecimal digits. -/
def hexUnit? (a b c d : Char) : Option Nat :=
  match hexDigit? a, hexDigit? b, hexDigit? c, hexDigit? d with
  | some a, some b, some c, some d => some (((a * 16 + b) * 16 + c) * 16 + d)
  | _, _, _, _ => none

/-- A failure at the next four bytes, which spell no hexadecimal number, or at the end of
    the text if it comes first. -/
def failHexUnit {α : Type} (cs : List Char) : Except Failure α :=
  if byteCount (cs.take 4) < 4 then failAt .endInText [] else .error ⟨.invalidEscape, cs, 4⟩

/-- Reads four hexadecimal digits. -/
def readHexUnit (cs : List Char) : Except Failure (Nat × List Char) :=
  match cs with
  | a :: b :: c :: d :: rest => (hexUnit? a b c d).elim (failHexUnit cs) fun n => .ok (n, rest)
  | _ => failHexUnit cs

/-- Reads the second half of a character beyond the basic plane. -/
def readLowSurrogate (high : Nat) : List Char → Except Failure (Char × List Char)
  | [] => failAt .endInText []
  | '\\' :: 'u' :: rest => do
    let (low, rest) ← readHexUnit rest
    if 0xDC00 ≤ low ∧ low ≤ 0xDFFF then
      .ok (Char.ofNat (0x10000 + (high - 0xD800) * 0x400 + (low - 0xDC00)), rest)
    else failAt .loneSurrogate rest
  | ['\\'] => failAt .endInText []
  | '\\' :: rest => failAhead .unfinishedSurrogate rest
  | rest => failAhead .unfinishedSurrogate rest

/-- Reads an escape after its backslash. -/
def readEscape : List Char → Except Failure (Char × List Char)
  | [] => failAt .endInText []
  | '"' :: rest => .ok ('"', rest)
  | '\\' :: rest => .ok ('\\', rest)
  | '/' :: rest => .ok ('/', rest)
  | 'b' :: rest => .ok ('\x08', rest)
  | 'f' :: rest => .ok ('\x0c', rest)
  | 'n' :: rest => .ok ('\n', rest)
  | 'r' :: rest => .ok ('\r', rest)
  | 't' :: rest => .ok ('\t', rest)
  | 'u' :: rest => do
    let (unit, rest) ← readHexUnit rest
    if 0xDC00 ≤ unit ∧ unit ≤ 0xDFFF then failAt .loneSurrogate rest
    else if 0xD800 ≤ unit ∧ unit ≤ 0xDBFF then readLowSurrogate unit rest
    else .ok (Char.ofNat unit, rest)
  | rest => failAhead .invalidEscape rest

/-- Reads the characters of a text up to its closing quote. Every step takes a
    character, so the length of the text is fuel enough. -/
def readTextBody : Nat → List Char → Except Failure (List Char × List Char)
  | 0, cs => failAt .endInText cs
  | _ + 1, [] => failAt .endInText []
  | fuel + 1, c :: cs =>
    if c = '"' then .ok ([], cs)
    else if c.toNat < 0x20 then failAt .controlCharacter cs
    else do
      let (d, rest) ← if c = '\\' then readEscape cs else .ok (c, cs)
      let (body, rest) ← readTextBody fuel rest
      .ok (d :: body, rest)

/-- Reads a text after its opening quote. -/
def readText (cs : List Char) : Except Failure (String × List Char) := do
  let (body, rest) ← readTextBody (cs.length + 1) cs
  .ok (String.ofList body, rest)

/-! ## Containers -/

/-- Looks for the next item of an array: the characters it starts at, or none at the
    closing bracket. -/
def nextItem (first : Bool) (cs : List Char) : Except Failure (Option (List Char)) :=
  match skipSpace cs with
  | [] => failAhead .endInArray []
  | ']' :: _ => .ok none
  | ',' :: rest =>
    if first then .ok (some (',' :: rest))
    else
      match skipSpace rest with
      | [] => failAhead .endInValue []
      | ']' :: rest => failAhead .trailingComma (']' :: rest)
      | rest => .ok (some rest)
  | rest => if first then .ok (some rest) else failAhead .expectedArrayEnd rest

/-- Looks for the next field of an object: the characters after the opening quote of
    its name, or none at the closing bracket. -/
def nextField (first : Bool) (cs : List Char) : Except Failure (Option (List Char)) :=
  match skipSpace cs with
  | [] => failAhead .endInObject []
  | '\x7d' :: _ => .ok none
  | '"' :: rest => if first then .ok (some rest) else failAhead .expectedObjectEnd ('"' :: rest)
  | ',' :: rest =>
    if first then failAhead .nameNotText (',' :: rest)
    else
      match skipSpace rest with
      | [] => failAhead .endInValue []
      | '"' :: rest => .ok (some rest)
      | '\x7d' :: rest => failAhead .trailingComma ('\x7d' :: rest)
      | rest => failAhead .nameNotText rest
  | rest => failAhead (if first then .nameNotText else .expectedObjectEnd) rest

/-- Reads the colon between a name and its value. -/
def readColon (cs : List Char) : Except Failure (List Char) :=
  match skipSpace cs with
  | [] => failAhead .endInObject []
  | ':' :: rest => .ok rest
  | rest => failAhead .expectedColon rest

/-- Reads the closing bracket of an array. -/
def readArrayEnd (cs : List Char) : Except Failure (List Char) :=
  match skipSpace cs with
  | [] => failAhead .endInArray []
  | ']' :: rest => .ok rest
  | ',' :: rest =>
    match skipSpace rest with
    | ']' :: rest => failAhead .trailingComma (']' :: rest)
    | rest => failAhead .trailingCharacters rest
  | rest => failAhead .trailingCharacters rest

/-- Reads the closing bracket of an object. -/
def readObjectEnd (cs : List Char) : Except Failure (List Char) :=
  match skipSpace cs with
  | [] => failAhead .endInObject []
  | '\x7d' :: rest => .ok rest
  | ',' :: rest => failAhead .trailingComma (',' :: rest)
  | rest => failAhead .trailingCharacters rest

/-- The number of containers that may lie inside each other. -/
def nestingLimit : Nat := 127

/-- The fields of an object: in the order of their names, the last of equal names
    kept. -/
def collectFields (fields : List (String × Json)) : List (String × Json) :=
  sortFields (Fields.ofList fields).entries

mutual

/-- Reads a value below `room` more levels of containers. Every step takes a
    character, so twice the length of the text is fuel enough. -/
def readValue : Nat → Nat → List Char → Except Failure (Json × List Char)
  | 0, _, cs => failAhead .endInValue cs
  | fuel + 1, room, cs =>
    match skipSpace cs with
    | [] => failAhead .endInValue []
    | 'n' :: rest => do .ok (.null, ← readWord "ull".toList rest)
    | 't' :: rest => do .ok (.bool true, ← readWord "rue".toList rest)
    | 'f' :: rest => do .ok (.bool false, ← readWord "alse".toList rest)
    | '-' :: rest => readNumber true rest
    | '"' :: rest => do
      let (t, rest) ← readText rest
      .ok (.text t, rest)
    | '[' :: rest =>
      match room with
      | 0 => failAhead .nestedTooDeep ('[' :: rest)
      | room + 1 => do
        let (items, rest) ← readItems fuel room true rest
        .ok (.array items, ← readArrayEnd rest)
    | '\x7b' :: rest =>
      match room with
      | 0 => failAhead .nestedTooDeep ('\x7b' :: rest)
      | room + 1 => do
        let (fields, rest) ← readFields fuel room true rest
        .ok (.object (collectFields fields), ← readObjectEnd rest)
    | c :: rest =>
      if c.isDigit then readNumber false (c :: rest) else failAhead .expectedValue (c :: rest)

/-- Reads the items of an array up to its closing bracket. -/
def readItems : Nat → Nat → Bool → List Char → Except Failure (List Json × List Char)
  | 0, _, _, cs => failAhead .endInArray cs
  | fuel + 1, room, first, cs => do
    match ← nextItem first cs with
    | none => .ok ([], skipSpace cs)
    | some cs =>
      let (item, rest) ← readValue fuel room cs
      let (items, rest) ← readItems fuel room false rest
      .ok (item :: items, rest)

/-- Reads the fields of an object up to its closing bracket. -/
def readFields : Nat → Nat → Bool → List Char → Except Failure (List (String × Json) × List Char)
  | 0, _, _, cs => failAhead .endInObject cs
  | fuel + 1, room, first, cs => do
    match ← nextField first cs with
    | none => .ok ([], skipSpace cs)
    | some cs =>
      let (name, rest) ← readText cs
      let rest ← readColon rest
      let (field, rest) ← readValue fuel room rest
      let (fields, rest) ← readFields fuel room false rest
      .ok ((name, field) :: fields, rest)

end

/-- The characters after a document, of which there must be none but white space. -/
def nothingLeft (cs : List Char) : Except Failure Unit :=
  match skipSpace cs with
  | [] => .ok ()
  | rest => failAhead .trailingCharacters rest

/-- Reads a whole text as one document. -/
def read (document : List Char) : Except Failure Json := do
  let (result, rest) ← readValue (2 * document.length + 2) nestingLimit document
  nothingLeft rest
  .ok result

end ReactiveTemplate.Json
