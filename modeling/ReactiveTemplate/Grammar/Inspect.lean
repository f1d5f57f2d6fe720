import ReactiveTemplate.Grammar.Expression
import ReactiveTemplate.Number.Written
import ReactiveTemplate.Text.Quoted

/-!
# The structure of event actions

A form of event actions that shows their structure, for those who check a template.

* `EventAction.inspect`: the structure of an action.
-/

namespace ReactiveTemplate

/-- The structure of a path. -/
def Path.inspect (path : Path) : String :=
  "Path \x7b segments: [" ++ String.intercalate ", " (path.segments.map Text.quote) ++ "] \x7d"

/-- The structure of a literal. -/
def Literal.inspect : Literal → String
  | .text t => "Text(" ++ Text.quote t ++ ")"
  | .number x => "Number(" ++ Number.literal x ++ ")"
  | .bool b => "Bool(" ++ (if b then "true" else "false") ++ ")"

/-- The structure of an operand. -/
def Operand.inspect : Operand → String
  | .literal l => "Literal(" ++ l.inspect ++ ")"
  | .path p => "Path(" ++ p.inspect ++ ")"

/-- The name of a direction. -/
def Direction.inspect : Direction → String
  | .increment => "Increment"
  | .decrement => "Decrement"

/-- The structure of an action. -/
def EventAction.inspect : EventAction → String
  | .call name => "Call(" ++ Text.quote name ++ ")"
  | .step target direction =>
    "Step \x7b target: " ++ target.inspect ++ ", step: " ++ direction.inspect ++ " \x7d"
  | .assign target value =>
    "Assign \x7b target: " ++ target.inspect ++ ", value: " ++ value.inspect ++ " \x7d"

end ReactiveTemplate
