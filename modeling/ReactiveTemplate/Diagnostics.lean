import ReactiveTemplate.Grammar.Report
import ReactiveTemplate.Text.Quoted

/-!
# Diagnostics

Problems that never stop the engine. Each is recorded in a buffer of bounded length,
which keeps the most recent records, and written to a log.

* `Diagnostic`: a problem, with the drawing of a syntax error.
* `Diagnostics`: the buffer.
* `Journal`: the buffer together with the log.
-/

namespace ReactiveTemplate

/-- The kinds of problems. -/
inductive DiagnosticKind where
  | rejectedExpression
  | malformedFor
  | malformedModel
  | malformedEvent
  | unsupportedEventCode
  | evaluationError
  | bindingUpdateError
  | invalidState
  deriving DecidableEq, Repr

namespace DiagnosticKind

/-- The wording of a kind. -/
def describe : DiagnosticKind → String
  | .rejectedExpression => "rejected expression"
  | .malformedFor => "malformed for"
  | .malformedModel => "malformed model"
  | .malformedEvent => "malformed event"
  | .unsupportedEventCode => "unsupported event code"
  | .evaluationError => "evaluation error"
  | .bindingUpdateError => "binding update error"
  | .invalidState => "invalid state"

/-- The name of a kind where the structure of a record is shown. -/
def name : DiagnosticKind → String
  | .rejectedExpression => "RejectedExpression"
  | .malformedFor => "MalformedFor"
  | .malformedModel => "MalformedModel"
  | .malformedEvent => "MalformedEvent"
  | .unsupportedEventCode => "UnsupportedEventCode"
  | .evaluationError => "EvaluationError"
  | .bindingUpdateError => "BindingUpdateError"
  | .invalidState => "InvalidState"

/-- Whether a problem arose while running, and not from the markup. -/
def isError : DiagnosticKind → Bool
  | .evaluationError | .bindingUpdateError => true
  | _ => false

end DiagnosticKind

/-- A problem: its kind, the text it was found in, its wording, and for a syntax error
    the drawing. -/
structure Diagnostic where
  kind : DiagnosticKind
  source : String
  message : String
  report : Option String
  deriving DecidableEq, Repr

namespace Diagnostic

/-- A problem without a drawing. -/
def plain (kind : DiagnosticKind) (source message : String) : Diagnostic :=
  ⟨kind, source, message, none⟩

/-- A syntax error in a source. -/
def ofSyntaxError (kind : DiagnosticKind) (source : String) (error : SyntaxError) : Diagnostic :=
  ⟨kind, source, error.message, some (error.report source)⟩

/-- The wording of a problem. -/
def describe (d : Diagnostic) : String :=
  d.kind.describe ++ ": " ++ d.message ++ " ('" ++ d.source ++ "')"

/-- The structure of a record. -/
def inspect (d : Diagnostic) : String :=
  let report := d.report.elim "None" fun r => "Some(" ++ Text.quote r ++ ")"
  "Diagnostic \x7b kind: " ++ d.kind.name ++ ", source: " ++ Text.quote d.source ++
    ", message: " ++ Text.quote d.message ++ ", report: " ++ report ++ " \x7d"

end Diagnostic

/-- The most recent problems, at most `limit` of them, oldest first. -/
structure Diagnostics where
  limit : Nat
  entries : List Diagnostic
  deriving Repr

namespace Diagnostics

/-- An empty buffer. -/
def empty (limit : Nat) : Diagnostics := ⟨limit, []⟩

/-- Adds a problem. The oldest ones make room for it. -/
def record (ds : Diagnostics) (d : Diagnostic) : Diagnostics :=
  if ds.limit = 0 then ds
  else { ds with entries := ds.entries.drop (ds.entries.length + 1 - ds.limit) ++ [d] }

/-- The number of problems of a kind. -/
def count (ds : Diagnostics) (kind : DiagnosticKind) : Nat :=
  ds.entries.countP fun d => d.kind == kind

/-- Forgets all problems. -/
def clear (ds : Diagnostics) : Diagnostics := { ds with entries := [] }

/-- The structure of the buffer. -/
def inspect (ds : Diagnostics) : String :=
  "[" ++ String.intercalate ", " (ds.entries.map Diagnostic.inspect) ++ "]"

end Diagnostics

/-- The levels of a log, the gravest first. -/
inductive LogLevel where
  | error
  | warn
  | info
  | debug
  | trace
  deriving DecidableEq, Repr

/-- The place of a level in their order. -/
def LogLevel.rank : LogLevel → Nat
  | .error => 0
  | .warn => 1
  | .info => 2
  | .debug => 3
  | .trace => 4

/-- A line of the log: a message, or the drawing of a syntax error. -/
inductive LogLine where
  | message (level : LogLevel) (text : String)
  | drawing (report : String)
  deriving Repr

/-- The level of a line; drawings are details. -/
def LogLine.level : LogLine → LogLevel
  | .message level _ => level
  | .drawing _ => .debug

/-- The recorded problems and the log. -/
structure Journal where
  diagnostics : Diagnostics
  lines : List LogLine

namespace Journal

/-- A journal without entries. -/
def empty (limit : Nat) : Journal := ⟨.empty limit, []⟩

/-- Writes a line to the log. -/
def log (j : Journal) (level : LogLevel) (text : String) : Journal :=
  { j with lines := j.lines ++ [.message level text] }

/-- Records a problem and writes it to the log. -/
def record (j : Journal) (d : Diagnostic) : Journal :=
  let j := j.log (if d.kind.isError then .error else .warn) d.describe
  { diagnostics := j.diagnostics.record d
    lines := j.lines ++ d.report.toList.map LogLine.drawing }

end Journal

end ReactiveTemplate
