import ReactiveTemplate.CommandLine.Request
import ReactiveTemplate.Config
import ReactiveTemplate.Evaluation.Compiled
import ReactiveTemplate.Grammar.Inspect
import ReactiveTemplate.Grammar.Report
import ReactiveTemplate.Value.Snapshot

/-!
# Answers to requests

What the program prints for a request.

* `Outcome`: the printed output, the drawing of a syntax error, the failure.
* `Request.run`: the answer to a request.
-/

namespace ReactiveTemplate.CommandLine

/-- What the program prints for a request. -/
structure Outcome where
  output : String
  /-- The drawing of a syntax error, shown beside the output. -/
  drawing : Option String
  /-- Why the request failed. -/
  failure : Option String
  deriving DecidableEq, Repr

namespace Outcome

/-- A request that succeeded. -/
def printed (line : String) : Outcome := ⟨line ++ "\n", none, none⟩

/-- A request that failed. -/
def failed (message : String) : Outcome := ⟨"", none, some message⟩

/-- A failure and what caused it. -/
def failedBy (message cause : String) : Outcome :=
  failed (message ++ "\n\nCaused by:\n    " ++ cause)

end Outcome

/-! ## Checking -/

/-- What is said of a text that a grammar accepts. -/
def describeAccepted (text : String) : GrammarName → Except SyntaxError String
  | .expression => do
    let e ← parseExpression text
    return "reads: [" ++ String.intercalate ", " (e.paths.map Path.dotted) ++ "]"
  | .forClause => do
    let clause ← parseForClause text
    return "item '" ++ clause.item ++ "' over '" ++ clause.list.dotted ++ "'"
  | .event => do
    let action ← parseEventAction text
    return action.inspect

/-- Whether a text is inside a grammar. -/
def runCheck (text : String) (grammar : GrammarName) : Outcome :=
  let text := Text.trim text
  match describeAccepted text grammar with
  | .ok summary => .printed ("accepted: " ++ summary)
  | .error e => { Outcome.failed ("rejected: " ++ e.message) with drawing := some (e.report text) }

/-! ## Evaluating -/

/-- The scope of a state with an item in front of it, written `name=json`. -/
def itemScope (h : Heap) (state : Scope) (item : String) : Except Outcome (Scope × Heap) :=
  match Text.cutAtFirst? '=' item.toList with
  | none => .error (.failed "--item must look like name=json")
  | some (name, text) =>
    let name := String.ofList name
    match Json.read text with
    | .error failure =>
      .error (.failedBy ("--item '" ++ name ++ "' is not valid JSON") (failure.message text))
    | .ok document =>
      let (value, h) := h.place (.ofJson document)
      .ok (.item (Text.trim name) value state, h)

/-- The scope of an evaluation. -/
def evalScope (h : Heap) (state : Scope) : Option String → Except Outcome (Scope × Heap)
  | none => .ok (state, h)
  | some item => itemScope h state item

/-- Prints the value of an expression. -/
def printValue (h : Heap) (value : Value) (json : Bool) : Outcome :=
  .printed (if json then (value.json h).print else value.display h)

/-- The value of an expression in a scope. -/
def printEvaluated (compiled : CompiledExpression) (h : Heap) (scope : Scope) (json : Bool) :
    Outcome :=
  match compiled.eval? h scope with
  | .ok value => printValue h value json
  | .error e => .failedBy ("evaluating '" ++ compiled.source ++ "'") e.message

/-- The value of an expression text in a state. A text outside the grammar has the empty
    text as its value, and the drawing shows why. -/
def runEval (expression state : String) (item : Option String) (json : Bool) : Outcome :=
  match Json.read state.toList with
  | .error failure => .failedBy "--state is not valid JSON" (failure.message state.toList)
  | .ok document =>
    match Heap.empty.place (.ofJson document) with
    | (.object root, h) =>
      let compiled := CompiledExpression.compile expression
      let outcome := match evalScope h (.object root) item with
        | .error outcome => outcome
        | .ok (scope, h) => printEvaluated compiled h scope json
      { outcome with drawing := compiled.error?.map (SyntaxError.report compiled.source) }
    | _ => .failed "--state must be a JSON object"

/-! ## Tokens -/

/-- A number in a column of three places, to the right. -/
def alignRight (n : Nat) : String := String.ofList ((Nat.repr n).toList.leftpad 3 ' ')

/-- A number in a column of three places, to the left. -/
def alignLeft (n : Nat) : String := String.ofList ((Nat.repr n).toList.rightpad 3 ' ')

/-- A token with its place, on a line of its own. -/
def tokenLine (token : Located Token) : String :=
  alignRight token.start ++ ".." ++ alignLeft token.stop ++ " " ++ token.item.spelling ++ "\n"

/-- The tokens of a text. -/
def runTokens (text : String) : Outcome :=
  match Lexer.tokenize text with
  | .ok tokens => ⟨String.join (tokens.map tokenLine), none, none⟩
  | .error e => .failed ("lexer errors: " ++ e.reason)

/-! ## All requests -/

/-- The answer to a request. -/
def Request.run : Request → Outcome
  | .check text grammar => runCheck text grammar
  | .eval expression state item json => runEval expression state item json
  | .tokens text => runTokens text
  | .help page => ⟨page.text, none, none⟩

end ReactiveTemplate.CommandLine
