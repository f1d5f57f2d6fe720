import ReactiveTemplate.Engine.Monitor

/-!
# Reactions to events

What the listeners of a document do to the state. An action that comes to a container
which is being modified does not come back from it: it leaves the state as it is. What
else the same event would have set off is told as if it had come back. A step at an array
that contains itself would not come back either, and is told as if the array had the
empty text.

* `Reaction`: a listener of the engine or of the host.
* `Tracked.act`: runs an event action.
* `Tracked.perform`: runs the reactions to an event, in order.
-/

namespace ReactiveTemplate

/-- What a listener does. -/
inductive Reaction where
  /-- A listener of the host, which leaves the state alone. -/
  | note (label : String)
  /-- Writes the value of the event at a path. -/
  | input (path : String)
  /-- Runs an action. -/
  | run (action : EventAction)
  deriving Repr

/-- The number one above or below another. -/
def Direction.apply (direction : Direction) (x : Float) : Float :=
  match direction with
  | .increment => x + 1
  | .decrement => x - 1

namespace Tracked

/-- Writes a value at a path. A write that cannot be done is reported under a source. -/
def assign (s : State) (source path : String) (value : Value) : State :=
  if s.store.barsWrite path then s
  else match s.write fun store => store.setPath Store.root path value with
    | (.ok _, s) => s
    | (.error e, s) => s.record .invalidState source e.message

/-- Runs the state function with a name. -/
def call (s : State) (event : HostEvent) (name : String) : State :=
  if (s.heap.object s.store.rootObject).locked then s
  else
    let (read, store) := s.store.getField Store.root s.store.rootObject name
    let s := { s with store := store }
    match read with
    | .value (.function id) => s.runScript (some event) (s.heap.script id)
    | _ => s.log .debug ("'" ++ name ++ "' is not a function in state")

/-- Steps the number at a path. -/
def step (s : State) (source path : String) (direction : Direction) : State :=
  if s.store.barsRead path then s
  else match s.store.getPath Store.root path with
    | (.error e, store) => { s with store := store }.record .invalidState source e.message
    | (.ok read, store) =>
      let x := (store.readValue read).toNumber store.heap
      { s with store := store }.assign source path (.number (direction.apply x))

/-- Runs an event action. -/
def act (s : State) (event : HostEvent) : EventAction → State
  | .call name => s.call event name
  | .step target direction => s.step event.name target.dotted direction
  | .assign target (.literal l) => s.assign event.name target.dotted l.value
  | .assign target (.path p) =>
    match resolvePath s.heap s.scope p with
    | .ok value => s.assign event.name target.dotted value
    | .error e => s.record .evaluationError p.dotted e.message

/-- Does what a listener does on an event. -/
def react (event : HostEvent) (s : State) : Reaction → State
  | .note _ => s
  | .input path => s.assign path path (.text (event.value.getD ""))
  | .run action => s.act event action

/-- Does what the listeners for an event do, in order. -/
def perform (s : State) (event : HostEvent) (reactions : List Reaction) : State :=
  reactions.foldl (react event) s

end Tracked

end ReactiveTemplate
