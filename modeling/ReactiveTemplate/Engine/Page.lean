import ReactiveTemplate.Engine.Binding
import ReactiveTemplate.Engine.Reaction
import ReactiveTemplate.Evaluation.Cache
import ReactiveTemplate.Host.Edit

/-!
# Pages

A document whose listeners act on a state, together with what is needed to bring it up
to date. A step on a page that can fail leaves the page as it is when it fails.

What would write out an array that contains itself does not come back. A step on a page
is told as if it did, with the empty text in place of the one that has no end.

* `Page`: document, conventions, state and compiled expressions.
* `Page.compile`, `Page.evaluate`: the value of an expression text.
* `untilFailure`, `despiteFailures`: steps for the items of a list.
-/

namespace ReactiveTemplate

/-! ## Steps in a row -/

/-- Does a step for each item of a list in order, up to the first one that fails. -/
def untilFailure {σ ε β : Type} (step : σ → β → Except ε Unit × σ) :
    List β → σ → Except ε Unit × σ
  | [], s => (.ok (), s)
  | item :: rest, s =>
    match step s item with
    | (.ok (), s) => untilFailure step rest s
    | (.error e, s) => (.error e, s)

/-- Does a step for each item of a list in order, whether or not others fail. The result
    is the first failure. -/
def despiteFailures {σ ε β : Type} (step : σ → β → Except ε σ) : List β → σ → Option ε × σ
  | [], s => (none, s)
  | item :: rest, s =>
    match step s item with
    | .ok s => despiteFailures step rest s
    | .error e => (some e, (despiteFailures step rest s).2)

/-! ## Pages -/

/-- A document, the conventions of its markup, the state it shows, and the expressions
    that were compiled. -/
structure Page where
  host : HostTree Reaction
  config : Config
  state : State
  cache : ExpressionCache

namespace Page

/-- Replaces the document by an edited one, where the edit did not fail. -/
def edit (page : Page) (edited : Except HostError (HostTree Reaction)) :
    Except HostError Unit × Page :=
  match edited with
  | .ok host => (.ok (), { page with host := host })
  | .error e => (.error e, page)

/-- Replaces the document by an edited one, also where the edit failed on the way. -/
def editPartly {α : Type} (page : Page) (edited : Except HostError α × HostTree Reaction) :
    Except HostError α × Page :=
  (edited.1, { page with host := edited.2 })

/-- Records a problem. -/
def record (page : Page) (kind : DiagnosticKind) (source message : String) : Page :=
  { page with state := page.state.record kind source message }

/-- The compiled expression of a text. -/
def compile (page : Page) (text : String) (marker : ContextMarker) : CompiledExpression × Page :=
  let r := page.cache.compile page.state.journal text marker
  (r.compiled, { page with cache := r.cache, state := page.state.withJournal r.journal })

/-- The value of an expression. One that cannot be evaluated is reported and has the
    empty text as its value. -/
def evaluate (page : Page) (expression : CompiledExpression) (scope : Scope) : Value × Page :=
  match expression.eval? page.state.heap scope with
  | .ok value => (value, page)
  | .error e => (.text "", page.record .evaluationError expression.source e.message)

/-- The text that shows a value. -/
def textOf (page : Page) (value : Value) : String := value.textContent page.state.heap

/-- The attribute name of a kind of directives. -/
def attributeName (page : Page) (kind : DirectiveKind) : String := page.config.attributeName kind

/-- Shows or hides an element. -/
def setVisible (page : Page) (node : NodeId) (visible : Bool) : Except HostError Unit × Page :=
  page.edit (page.host.setStyle node "display" (if visible then "" else "none"))

end Page

end ReactiveTemplate
