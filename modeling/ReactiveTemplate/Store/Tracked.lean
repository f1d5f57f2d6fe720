import ReactiveTemplate.Host.Event
import ReactiveTemplate.Store.PathAccess

/-!
# Tracked state

A store together with an observer that is told of every change, after it was made.
The observer may answer with a script, which runs on the root at once; the changes
the script makes are told in turn.

* `Observer`: the observers, as values that react to a change.
* `Tracked.write`: a write of the store, and the telling of its change.
* `Tracked.runScript`: the commands of a state function.
-/

namespace ReactiveTemplate

/-- The values that can observe a store. -/
class Observer (ω : Type) where
  /-- Takes note of a change at a path, and may answer with a script. -/
  react : String → ω → ω × Option Script
  /-- How many answers may lie inside each other. -/
  depth : Nat

/-- A store and the observer of its changes. -/
structure Tracked (ω : Type) where
  store : Store
  observer : ω

namespace Tracked

variable {ω : Type}

/-- Does a write, and tells its change by `announce`. -/
def writeWith {α : Type} (announce : String → Tracked ω → Tracked ω) (t : Tracked ω)
    (write : Store → Written α) : α × Tracked ω :=
  let w := write t.store
  let t := { t with store := w.store }
  (w.result, w.changed.elim t fun path => announce path t)

/-- The numeric value at a path below the root, if the path can be followed. -/
def numberAt? (t : Tracked ω) (path : String) : Option Float × Tracked ω :=
  if t.store.barsRead path then (none, t)
  else match t.store.getPath Store.root path with
    | (.error _, s) => (none, { t with store := s })
    | (.ok read, s) => (some ((s.readValue read).toNumber s.heap), { t with store := s })

/-- Writes a datum at a path below the root. -/
def placeAt (announce : String → Tracked ω → Tracked ω) (t : Tracked ω) (path : String)
    (datum : Datum) : Tracked ω :=
  if t.store.barsWrite path then t
  else
    let (value, heap) := t.store.heap.place datum
    (writeWith announce { t with store := { t.store with heap := heap } } fun s =>
      s.setPath Store.root path value).2

/-- The text by which a command notes an event. -/
def eventNote (event : HostEvent) : String := event.name ++ "|" ++ event.value.getD "<none>"

/-- Runs one command on the root. What cannot be done is left undone. -/
def runCommand (announce : String → Tracked ω → Tracked ω) (event : Option HostEvent)
    (t : Tracked ω) : Command → Tracked ω
  | .set path value => placeAt announce t path value
  | .increment path =>
    match t.numberAt? path with
    | (none, t) => t
    | (some x, t) => placeAt announce t path (.number (x + 1))
  | .push path value =>
    if t.store.barsRead path then t
    else match t.store.getPath Store.root path with
      | (.ok (.view id), s) =>
        match s.container id with
        | .array array =>
          if (s.heap.array array).locked then { t with store := s }
          else
            let (value, heap) := s.heap.place value
            (writeWith announce { t with store := { s with heap := heap } } fun s =>
              s.editItems id array (Items.push value)).2
        | .object _ => { t with store := s }
      | (_, s) => { t with store := s }
  | .note path => event.elim t fun event => placeAt announce t path (.text (eventNote event))

/-- Runs the commands of a script in order. -/
def runScriptWith (announce : String → Tracked ω → Tracked ω) (event : Option HostEvent)
    (t : Tracked ω) (script : Script) : Tracked ω :=
  script.foldl (runCommand announce event) t

variable [Observer ω]

/-- Tells the observer of a change and runs the script it answers with, as long as
    fewer than `depth` answers lie inside each other. -/
def announceWithin : Nat → String → Tracked ω → Tracked ω
  | 0, path, t => { t with observer := (Observer.react path t.observer).1 }
  | depth + 1, path, t =>
    let (observer, script) := Observer.react path t.observer
    let t := { t with observer := observer }
    script.elim t (runScriptWith (announceWithin depth) none t)

/-- Tells the observer of a change and runs the script it answers with. -/
def announce (path : String) (t : Tracked ω) : Tracked ω :=
  announceWithin (Observer.depth ω) path t

/-- Does a write and tells its change. -/
def write {α : Type} (t : Tracked ω) (write : Store → Written α) : α × Tracked ω :=
  writeWith announce t write

/-- Runs the commands of a state function. -/
def runScript (t : Tracked ω) (event : Option HostEvent) (script : Script) : Tracked ω :=
  runScriptWith announce event t script

end Tracked

/-- An observer that notes the paths of all changes and answers each with the same
    script. -/
structure Recorder where
  paths : Array String
  answer : Option Script

/-- The answers lie inside each other until one of them changes nothing. A script that never
    comes to rest is cut off at a depth that no state at rest needs. -/
instance : Observer Recorder where
  react path r := ({ r with paths := r.paths.push path }, r.answer)
  depth := 10000

end ReactiveTemplate
