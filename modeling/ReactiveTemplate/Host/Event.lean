/-!
# Events

What a host delivers to the listeners of a node.
-/

namespace ReactiveTemplate

/-- An event: its name, and for input events the current value of the target. -/
structure HostEvent where
  name : String
  value : Option String
  deriving DecidableEq, Repr

end ReactiveTemplate
