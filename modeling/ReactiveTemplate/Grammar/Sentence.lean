import ReactiveTemplate.Grammar.Expression
import ReactiveTemplate.Grammar.Lexer

/-!
# Sentences

The rules of the three grammars over tokens, and the readers of whole texts.

* `Grammar.expression`: the expressions of `bind`, `show`, `if` and `model`. A bare
  path begins almost every other shape, so it is tried last.
* `Grammar.forClause`: `item in list`.
* `Grammar.eventAction`: `name()`, `path++`, `path--` and `path = operand`.
* `parseExpression`, `parseForClause`, `parseEventAction`: the readers.
-/

namespace ReactiveTemplate

namespace Grammar

/-- One token of a class. -/
def select {α : Type} (meaning : Token → Option α) : Rule Token α :=
  .satisfy .somethingElse .somethingElse meaning

/-- One given sign. -/
def sign (s : Sign) : Rule Token Unit :=
  .satisfy (.spelled s.spelling) (.spelled s.spelling) fun
    | .sign other => if other = s then some () else none
    | _ => none

/-- An identifier. -/
def identifier : Rule Token String :=
  select fun
    | .identifier name => some name
    | _ => none

/-- An identifier after a dot. -/
def segment : Rule Token String := do
  sign .dot
  identifier

/-- A path: identifiers with dots between them. -/
def path : Rule Token Path := do
  let root ← identifier
  let below ← Rule.repeated segment
  return ⟨root, below⟩

/-- A literal. -/
def literal : Rule Token Literal :=
  select fun
    | .text t => some (.text t)
    | .number x => some (.number x)
    | .bool b => some (.bool b)
    | _ => none

/-- A literal or a path. -/
def operand : Rule Token Operand :=
  .orElse (Operand.literal <$> literal) (Operand.path <$> path)

/-- The comparison a sign stands for. -/
def compareOp? : Token → Option CompareOp
  | .sign .strictEqual => some .strictEqual
  | .sign .strictNotEqual => some .strictNotEqual
  | .sign .looseEqual => some .looseEqual
  | .sign .looseNotEqual => some .looseNotEqual
  | .sign .lessOrEqual => some .lessOrEqual
  | .sign .greaterOrEqual => some .greaterOrEqual
  | .sign .less => some .less
  | .sign .greater => some .greater
  | _ => none

/-- The operation a sign stands for. -/
def arithmeticOp? : Token → Option ArithmeticOp
  | .sign .plus => some .add
  | .sign .minus => some .subtract
  | .sign .asterisk => some .multiply
  | .sign .slash => some .divide
  | _ => none

/-- The connective a sign stands for. -/
def logicalOp? : Token → Option LogicalOp
  | .sign .and => some .and
  | .sign .or => some .or
  | _ => none

/-- The number a token is. -/
def number? : Token → Option Float
  | .number x => some x
  | _ => none

/-- A path, an operation and a number. -/
def arithmetic : Rule Token Arithmetic := do
  let p ← path
  let op ← select arithmeticOp?
  let x ← select number?
  return ⟨p, op, x, false⟩

/-- The same in parentheses. -/
def parenthesized : Rule Token Arithmetic := do
  sign .openParen
  let operation ← arithmetic
  sign .closeParen
  return { operation with parenthesized := true }

/-- A path, and a literal for either outcome of its truth. -/
def ternary : Rule Token Expr := do
  let condition ← path
  sign .question
  let thenValue ← literal
  sign .colon
  let elseValue ← literal
  return .ternary condition thenValue elseValue

/-- A path compared with an operand. -/
def comparison : Rule Token Expr := do
  let left ← path
  let op ← select compareOp?
  let right ← operand
  return .compare left op right

/-- A part of a concatenation. -/
def concatPart : Rule Token ConcatPart :=
  .choice [ConcatPart.arithmetic <$> parenthesized, ConcatPart.literal <$> literal]
    (ConcatPart.path <$> path)

/-- A further part of a concatenation. -/
def furtherPart : Rule Token ConcatPart := do
  sign .plus
  concatPart

/-- Two or more parts with a plus between them. -/
def parts : Rule Token (List ConcatPart) := do
  let first ← concatPart
  let second ← furtherPart
  let rest ← Rule.repeated furtherPart
  return first :: second :: rest

/-- Whether a part is a quoted text. -/
def isTextPart : ConcatPart → Bool
  | .literal (.text _) => true
  | _ => false

/-- Whether a part is an operation. -/
def isArithmeticPart : ConcatPart → Bool
  | .arithmetic _ => true
  | _ => false

/-- Whether parts form a concatenation: at least one quoted text, and at most one
    operation. -/
def isConcatenation (parts : List ConcatPart) : Bool :=
  parts.any isTextPart && parts.countP isArithmeticPart ≤ 1

/-- A concatenation. -/
def concat : Rule Token Expr := do
  let ps ← Rule.checked parts isConcatenation
  return .concat ps

/-- The negation of a path. -/
def negation : Rule Token Expr := do
  sign .bang
  let p ← path
  return .not p

/-- An expression without connectives. -/
def simple : Rule Token Expr :=
  .choice
    [ternary, comparison, concat, Expr.arithmetic <$> .orElse parenthesized arithmetic, negation,
      Expr.literal <$> literal]
    (Expr.path <$> path)

/-- A connective and the expression after it. -/
def logicalTail : Rule Token (LogicalOp × Expr) := do
  let op ← select logicalOp?
  let right ← simple
  return (op, right)

/-- An expression: one without connectives, or two with one between them. -/
def expression : Rule Token Expr := do
  let left ← simple
  let tail ← Rule.optional logicalTail
  return match tail with
    | none => left
    | some (op, right) => .logical left op right

/-- The word between the item and the list of a clause. -/
def keywordIn : Rule Token Unit :=
  select fun
    | .identifier name => if name = "in" then some () else none
    | _ => none

/-- The clause of a repeated element. -/
def forClause : Rule Token ForClause := do
  let item ← identifier
  keywordIn
  let list ← path
  return ⟨item, list⟩

/-- The direction a sign stands for. -/
def direction? : Token → Option Direction
  | .sign .increment => some .increment
  | .sign .decrement => some .decrement
  | _ => none

/-- A call of a function of the state. -/
def call : Rule Token EventAction := do
  let name ← identifier
  sign .openParen
  sign .closeParen
  return .call name

/-- A step of a number. -/
def step : Rule Token EventAction := do
  let target ← path
  let direction ← select direction?
  return .step target direction

/-- An assignment. -/
def assignment : Rule Token EventAction := do
  let target ← path
  sign .assign
  let value ← operand
  return .assign target value

/-- What an event may do. -/
def eventAction : Rule Token EventAction := .choice [call, step] assignment

end Grammar

/-- Reads a whole text by a rule over tokens. -/
def parseWith {α : Type} (rule : Rule Token α) (source : String) : Except SyntaxError α :=
  match Lexer.tokenize source with
  | .error e => .error e
  | .ok tokens =>
    match rule.parse tokens with
    | .ok result => .ok result
    | .error furthest => .error (.ofStop Token.spelling source.utf8ByteSize furthest)

/-- Reads an expression. -/
def parseExpression (source : String) : Except SyntaxError Expr :=
  parseWith Grammar.expression source

/-- Reads the clause of a repeated element. -/
def parseForClause (source : String) : Except SyntaxError ForClause :=
  parseWith Grammar.forClause source

/-- Reads the action of an event. -/
def parseEventAction (source : String) : Except SyntaxError EventAction :=
  parseWith Grammar.eventAction source

end ReactiveTemplate
