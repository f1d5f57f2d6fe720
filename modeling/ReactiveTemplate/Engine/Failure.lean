import ReactiveTemplate.Engine.Update

/-!
# Failures of bindings

A binding that fails never stops the others. Its failure is recorded, and told to every
error handler.

* `BindingFailure`: what is told of a failure.
* `ErrorHandlers`: the handlers in the order in which they were added.
-/

namespace ReactiveTemplate

/-- What is told of a failed binding. -/
structure BindingFailure where
  binding : Nat
  kind : DirectiveKind
  /-- The short form of the node. -/
  node : String
  message : String
  deriving DecidableEq, Repr

/-- A handler of failures: its number, the name under which its calls are noted, and the
    script that a call runs on the state. -/
structure ErrorHandler where
  id : Nat
  label : String
  script : Script

/-- The handlers of failures, and the number of the next one. -/
structure ErrorHandlers where
  entries : List ErrorHandler
  next : Nat

namespace ErrorHandlers

/-- No handlers. -/
def empty : ErrorHandlers := ⟨[], 0⟩

/-- Adds a handler; the result is its number. -/
def add (hs : ErrorHandlers) (label : String) (script : Script) : Nat × ErrorHandlers :=
  (hs.next, ⟨hs.entries ++ [⟨hs.next, label, script⟩], hs.next + 1⟩)

/-- Takes a handler away; the result is whether there was one with the number. -/
def remove (hs : ErrorHandlers) (id : Nat) : Bool × ErrorHandlers :=
  (hs.entries.any fun h => h.id = id, { hs with entries := hs.entries.filter fun h => h.id ≠ id })

end ErrorHandlers

/-- A call of a handler. -/
structure HandlerCall where
  label : String
  failure : BindingFailure
  deriving DecidableEq, Repr

/-- The wording of a failure in a record. -/
def BindingFailure.describe (f : BindingFailure) : String :=
  f.kind.suffix ++ s!" binding #{f.binding}: " ++ f.message

/-- The failure of a binding, as things stand in the document. -/
def Binding.failure (b : Binding) (node message : String) : BindingFailure :=
  ⟨b.id, b.kind, node, message⟩

end ReactiveTemplate
