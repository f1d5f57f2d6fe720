import ReactiveTemplate.Config
import ReactiveTemplate.Evaluation.Compiled
import ReactiveTemplate.Host.Tree
import ReactiveTemplate.Store.StatePath

/-!
# Bindings

A binding is a place in the document and what keeps it current.

* `Directive`: what a binding does, and what it remembers to do it.
* `Binding.isAffectedBy`: whether a flush has to update a binding.
-/

namespace ReactiveTemplate

/-- What keeps a place of the document current. -/
inductive Directive where
  /-- Shows a value as text; `shown` is the text that was shown last. -/
  | text (expression : CompiledExpression) (shown : Option String)
  /-- Hides and shows the element. -/
  | visibility (expression : CompiledExpression)
  /-- Keeps either the element or a placeholder in its place. -/
  | presence (expression : CompiledExpression) (placeholder : NodeId) (present : Bool)
  /-- Keeps a copy of a template for each item of a list, behind a placeholder. -/
  | repetition (clause : ForClause) (template placeholder : NodeId) (rendered : List NodeId)
  /-- Keeps the value of an input, and a listener that writes what is put in. -/
  | model (expression : CompiledExpression) (listener : Nat)
  /-- Has listeners that run actions. -/
  | events (listeners : List Nat)

/-- The kind of a directive. -/
def Directive.kind : Directive → DirectiveKind
  | .text .. => .bind
  | .visibility _ => .visibility
  | .presence .. => .presence
  | .repetition .. => .repetition
  | .model .. => .model
  | .events _ => .events

/-- A place of the document and what keeps it current. -/
structure Binding where
  /-- Bindings are numbered in the order in which they were made. -/
  id : Nat
  node : NodeId
  /-- The text of the attribute that asked for the binding. -/
  source : String
  directive : Directive
  /-- The paths that are read; without them the binding is updated by every flush. -/
  reads : Option (List String)

namespace Binding

/-- The kind of a binding. -/
def kind (b : Binding) : DirectiveKind := b.directive.kind

/-- The copies of a template that a binding has put into the document. -/
def rendered (b : Binding) : List NodeId :=
  match b.directive with
  | .repetition _ _ _ rendered => rendered
  | _ => []

/-- Whether changes at some paths can affect what a binding shows. -/
def isAffectedBy (b : Binding) (changed : List String) : Bool :=
  match b.reads with
  | none => true
  | some reads => reads.any fun read => changed.any fun path => pathsOverlap read path

end Binding

end ReactiveTemplate
