import ReactiveTemplate.Grammar.SyntaxError
import ReactiveTemplate.Grammar.Token
import ReactiveTemplate.Number.Reading

/-!
# Lexer

Cuts a directive text into tokens. White space may stand around every token and is
left out. Identifiers are ASCII; a quoted text has no escapes and ends at the next
quote.

* `locateChars`: the characters of a text with their places.
* `tokens`: the rule for a whole text.
* `tokenize`: the tokens of a text, or why it has none.
-/

namespace ReactiveTemplate.Lexer

/-- The characters of a text with their places, the first one at `start`. -/
def locateFrom (start : Nat) : List Char → List (Located Char)
  | [] => []
  | c :: cs => ⟨c, start, start + c.utf8Size⟩ :: locateFrom (start + c.utf8Size) cs

/-- The characters of a text with their places. -/
def locateChars (text : String) : List (Located Char) := locateFrom 0 text.toList

/-- The single quote, which encloses texts. -/
def quoteMark : Char := '\x27'

/-- One given character. -/
def char (c : Char) : Rule Char Unit :=
  .satisfy (.spelled (String.singleton c)) (.spelled (String.singleton c)) fun d =>
    if d = c then some () else none

/-- One character of a class. -/
def charOf (expectation atEnd : Expectation) (member : Char → Bool) : Rule Char Char :=
  .satisfy expectation atEnd fun c => if member c then some c else none

/-- The characters of a word, one after the other. -/
def word : List Char → Rule Char Unit
  | [] => pure ()
  | c :: cs => do
    char c
    word cs

/-- A sign by its spelling. -/
def sign (s : Sign) : Rule Char Token := do
  word s.spelling.toList
  return .sign s

/-- One or more decimal digits. -/
def digits : Rule Char (List Char) := do
  let first ← charOf .digit .digit Char.isDigit
  let rest ← Rule.repeated (charOf .digit .digit Char.isDigit)
  return first :: rest

/-- The fraction of a number, after its integer part. -/
def fraction : Rule Char (List Char) := do
  char '.'
  digits

/-- A number: digits, and a point with digits after it if there are some. -/
def number : Rule Char Token := do
  let whole ← digits
  let part ← Rule.optional fraction
  return .number (Number.Decimal.ofParts false whole (part.getD []) 0).toFloat

/-- A quoted text. -/
def text : Rule Char Token := do
  char quoteMark
  let body ← Rule.repeated (charOf .somethingElse .somethingElse (· != quoteMark))
  char quoteMark
  return .text (String.ofList body)

/-- Whether an identifier may begin with a character. -/
def startsIdentifier (c : Char) : Bool := c.isAlpha || c == '_' || c == '$'

/-- Whether an identifier may go on with a character. -/
def continuesIdentifier (c : Char) : Bool := c.isAlphanum || c == '_' || c == '$'

/-- The token of a word: a truth value by its name, any other word an identifier. -/
def wordToken (name : String) : Token :=
  if name = "true" then .bool true
  else if name = "false" then .bool false
  else .identifier name

/-- An identifier or a truth value. -/
def identifier : Rule Char Token := do
  let first ← charOf .somethingElse .character startsIdentifier
  let rest ← Rule.repeated (charOf .somethingElse .character continuesIdentifier)
  return wordToken (String.ofList (first :: rest))

/-- One token: a bracket, a number, a text, an identifier or an operator. -/
def token : Rule Char Token :=
  .choice
    (Sign.brackets.map sign ++ [number, text, identifier] ++ Sign.operators.dropLast.map sign)
    (sign .assign)

/-- One token with its place, and the white space around it. -/
def paddedToken : Rule Char (Located Token) := do
  Rule.skip Text.isBlank
  let result ← Rule.located token
  Rule.skip Text.isBlank
  return result

/-- The tokens of a text. -/
def tokens : Rule Char (List (Located Token)) := Rule.repeated paddedToken

/-- The tokens of a text with their places, or why the text has none. -/
def tokenize (source : String) : Except SyntaxError (List (Located Token)) :=
  match tokens.parse (locateChars source) with
  | .ok result => .ok result
  | .error furthest => .error (.ofStop String.singleton source.utf8ByteSize furthest)

end ReactiveTemplate.Lexer
