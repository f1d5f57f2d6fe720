import ReactiveTemplate.Evaluation.Evaluate

/-!
# Compiled expressions

An expression text with the outcome of reading it. A text outside the grammar is
rejected: it has no dependencies, and its value is the empty text.

* `CompiledExpression.compile`: reads a text, without the white space around it.
* `CompiledExpression.run`: its evaluation, which need not end.
* `CompiledExpression.eval?`, `CompiledExpression.evaluate`: its value.
* `CompiledExpression.dependencies`: the paths it reads.
-/

namespace ReactiveTemplate

/-- An expression text and its tree, or why it has none. -/
structure CompiledExpression where
  source : String
  outcome : Except SyntaxError Expr

namespace CompiledExpression

/-- Reads an expression text. -/
def compile (source : String) : CompiledExpression :=
  let source := Text.trim source
  ⟨source, parseExpression source⟩

/-- Whether the text is inside the grammar. -/
def isAccepted (compiled : CompiledExpression) : Bool := compiled.outcome.toBool

/-- Why the text is rejected. -/
def error? (compiled : CompiledExpression) : Option SyntaxError :=
  match compiled.outcome with
  | .ok _ => none
  | .error e => some e

/-- The evaluation in a scope. -/
def run (compiled : CompiledExpression) (h : Heap) (scope : Scope) : Except NoValue Value :=
  match compiled.outcome with
  | .ok e => e.eval h scope
  | .error _ => .ok (.text "")

/-- The value in a scope. An evaluation that does not end comes back with nothing; what
    follows it is told for evaluations that end, and the empty text stands in for its
    value. -/
def eval? (compiled : CompiledExpression) (h : Heap) (scope : Scope) : Except EvalError Value :=
  match compiled.run h scope with
  | .ok value => .ok value
  | .error (.failed e) => .error e
  | .error .endless => .ok (.text "")

/-- The value in a scope, the empty text where there is none. -/
def evaluate (compiled : CompiledExpression) (h : Heap) (scope : Scope) : Value :=
  match compiled.eval? h scope with
  | .ok value => value
  | .error _ => .text ""

/-- The paths the expression reads. -/
def paths (compiled : CompiledExpression) : List Path :=
  match compiled.outcome with
  | .ok e => e.paths
  | .error _ => []

/-- The dotted paths the expression reads. -/
def dependencies (compiled : CompiledExpression) : List String :=
  compiled.paths.map Path.dotted

/-- The dotted paths the expression reads, without those of one name. -/
def dependenciesOutside (compiled : CompiledExpression) (item : String) : List String :=
  (compiled.paths.filter fun p => p.root != item).map Path.dotted

end CompiledExpression

/-- Whether a text is an expression. -/
def isAllowed (text : String) : Bool := (parseExpression (Text.trim text)).toBool

/-- The value of an expression text in a scope. -/
def evaluateOnce (h : Heap) (text : String) (scope : Scope) : Value :=
  (CompiledExpression.compile text).evaluate h scope

end ReactiveTemplate
