import ReactiveTemplate.Number.Written

/-!
# Tokens

The words of the three small grammars of directive texts: signs with a fixed
spelling, numbers, quoted texts, truth values and identifiers.

* `Sign.spelling`, `Token.spelling`: how a token is written.
-/

namespace ReactiveTemplate

/-- A token with a fixed spelling. -/
inductive Sign where
  | openParen
  | closeParen
  | strictEqual
  | strictNotEqual
  | looseEqual
  | looseNotEqual
  | lessOrEqual
  | greaterOrEqual
  | less
  | greater
  | and
  | or
  | increment
  | decrement
  | plus
  | minus
  | asterisk
  | slash
  | dot
  | colon
  | question
  | bang
  | assign
  deriving DecidableEq, Repr

/-- How a sign is written. -/
def Sign.spelling : Sign → String
  | .openParen => "("
  | .closeParen => ")"
  | .strictEqual => "==="
  | .strictNotEqual => "!=="
  | .looseEqual => "=="
  | .looseNotEqual => "!="
  | .lessOrEqual => "<="
  | .greaterOrEqual => ">="
  | .less => "<"
  | .greater => ">"
  | .and => "&&"
  | .or => "||"
  | .increment => "++"
  | .decrement => "--"
  | .plus => "+"
  | .minus => "-"
  | .asterisk => "*"
  | .slash => "/"
  | .dot => "."
  | .colon => ":"
  | .question => "?"
  | .bang => "!"
  | .assign => "="

/-- The brackets. -/
def Sign.brackets : List Sign := [.openParen, .closeParen]

/-- The signs other than brackets, a longer one before every sign it begins with. -/
def Sign.operators : List Sign :=
  [.strictEqual, .strictNotEqual, .looseEqual, .looseNotEqual, .lessOrEqual, .greaterOrEqual,
    .less, .greater, .and, .or, .increment, .decrement, .plus, .minus, .asterisk, .slash,
    .dot, .colon, .question, .bang, .assign]

/-- A word of a directive text. -/
inductive Token where
  | sign (sign : Sign)
  | number (value : Float)
  | text (value : String)
  | bool (value : Bool)
  | identifier (name : String)
  deriving Repr

/-- How a token is written. -/
def Token.spelling : Token → String
  | .sign s => s.spelling
  | .number x => if x.isInf then "inf" else Number.positional x
  | .text t => "'" ++ t ++ "'"
  | .bool b => if b then "true" else "false"
  | .identifier name => name

end ReactiveTemplate
