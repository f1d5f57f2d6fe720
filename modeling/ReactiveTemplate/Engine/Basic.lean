import ReactiveTemplate.Engine.Failure
import ReactiveTemplate.Engine.Scan

/-!
# Engines

An engine mounts zones of a document, keeps their bindings, and brings them up to date
when it is flushed.

* `Engine.create`: an engine over a document and a state.
* `Engine.mount`, `Engine.unmount`: making bindings and undoing them.
* `Engine.flush`: updates the bindings that read what changed.
* `Engine.setState`, `Engine.dispatch`: changes by the host and by events.
-/

namespace ReactiveTemplate

/-- What to bring under the control of an engine. -/
inductive MountTarget where
  /-- The elements that carry the zone attribute. -/
  | zones
  /-- The elements that a selector means. -/
  | selector (text : String)
  /-- One element. -/
  | zone (node : NodeId)
  deriving DecidableEq, Repr

/-- What a flush did: the changed paths in order, and the numbers of bindings by what
    became of them. -/
structure FlushReport where
  paths : List String
  updated : Nat
  skipped : Nat
  failed : Nat
  deriving DecidableEq, Repr

/-- The line of the log for a flush. -/
def FlushReport.describe (r : FlushReport) : String :=
  let paths := String.intercalate ", " (r.paths.map Text.quote)
  "flushed [" ++ paths ++ s!"]: {r.updated} updated, {r.skipped} skipped, {r.failed} failed"

/-- A document with its state, and the bindings between them. -/
structure Engine where
  page : Page
  /-- The bindings, in the order in which they were made. -/
  bindings : List Binding
  /-- The number of bindings made so far, those that are gone included. -/
  made : Nat
  handlers : ErrorHandlers
  /-- The calls of error handlers so far, oldest first. -/
  calls : List HandlerCall

namespace Engine

/-! ## Parts of an engine -/

/-- The tracked state. -/
def state (e : Engine) : State := e.page.state

/-- Replaces the state. -/
def withState (e : Engine) (state : State) : Engine :=
  { e with page := { e.page with state := state } }

/-- Replaces the document. -/
def withHost (e : Engine) (host : HostTree Reaction) : Engine :=
  { e with page := { e.page with host := host } }

/-- The recorded problems. -/
def diagnostics (e : Engine) : Diagnostics := e.state.journal.diagnostics

/-- The scheduler of the changes. -/
def scheduler (e : Engine) : Scheduler Script := e.state.scheduler

/-! ## Creation -/

/-- The object that an initial state is. Another value is reported, and an empty object
    stands in for it. -/
def initialObject (journal : Journal) (heap : Heap) : Value → ObjectId × Heap × Journal
  | .object id => (id, heap, journal)
  | other =>
    let (id, heap) := heap.addObject .empty
    (id, heap, journal.record (.plain .invalidState (other.display heap)
      ("initial state must be an object, got " ++ other.typeName)))

/-- An engine without bindings. -/
def create (host : HostTree Reaction) (initial : Datum) (config : Config) : Engine :=
  let (value, heap) := Heap.empty.place initial
  let (root, heap, journal) := initialObject (.empty config.maxDiagnostics) heap value
  let state : State := ⟨.wrap heap root, ⟨.empty, journal⟩⟩
  ⟨⟨host, config, state, .empty⟩, [], 0, .empty, []⟩

/-! ## Failures -/

/-- Calls an error handler. -/
def callHandler (failure : BindingFailure) (e : Engine) (h : ErrorHandler) : Engine :=
  { e.withState (e.state.runScript none h.script) with calls := e.calls ++ [⟨h.label, failure⟩] }

/-- Records a failure and calls the error handlers. -/
def capture (e : Engine) (failure : BindingFailure) : Engine :=
  let recorded :=
    { e with page := e.page.record .bindingUpdateError failure.node failure.describe }
  e.handlers.entries.foldl (callHandler failure) recorded

/-- Updates a binding, and captures its failure. The first part of the result is whether
    it succeeded. -/
def update (e : Engine) (b : Binding) : Bool × Binding × Engine :=
  match e.page.update b with
  | (.ok (), b, page) => (true, b, { e with page := page })
  | (.error error, b, page) =>
    (false, b,
      { e with page := page }.capture (b.failure (page.host.describe b.node) error.message))

/-! ## Mounting -/

/-- The zones of a target. -/
def zonesOf (page : Page) : MountTarget → Except HostError (List NodeId)
  | .zones => page.host.queryAll page.config.zoneSelector
  | .selector text => page.host.queryAll text
  | .zone node => .ok [node]

/-- Updates bindings one after the other. -/
def updateAll : List Binding → Engine → List Binding × Engine
  | [], e => ([], e)
  | b :: rest, e =>
    let (_, b, e) := e.update b
    let (rest, e) := updateAll rest e
    (b :: rest, e)

/-- Makes the bindings of some zones and updates each once. -/
def mountZones (e : Engine) (zones : List NodeId) : Engine :=
  let (bindings, page) := zones.foldl (Page.scanZone e.made) ([], e.page)
  let (bindings, e) := updateAll bindings
    { e with page := page, made := e.made + bindings.length }
  let e := { e with bindings := e.bindings ++ bindings }
  e.withState (e.state.log .info
    s!"mounted {zones.length} zone(s) with {bindings.length} binding(s)")

/-- Makes the bindings of the zones of a target and updates each once. -/
def mount (e : Engine) (target : MountTarget) : Engine :=
  match zonesOf e.page target with
  | .error error =>
    { e with page := e.page.record .bindingUpdateError "mount" error.message }
  | .ok [] => (e.withState (e.state.log .warn "mount found no zones")).mountZones []
  | .ok zones => e.mountZones zones

/-! ## Flushing -/

/-- Updates the bindings that changes at some paths can affect, and counts. -/
def flushEach (changed : List String) :
    List Binding → FlushReport → Engine → List Binding × FlushReport × Engine
  | [], report, e => ([], report, e)
  | b :: rest, report, e =>
    if b.isAffectedBy changed then
      let (succeeded, b, e) := e.update b
      let report := if succeeded then { report with updated := report.updated + 1 }
        else { report with failed := report.failed + 1 }
      let (rest, report, e) := flushEach changed rest report e
      (b :: rest, report, e)
    else
      let (rest, report, e) :=
        flushEach changed rest { report with skipped := report.skipped + 1 } e
      (b :: rest, report, e)

/-- Updates the bindings that read what changed since the last flush. -/
def flush (e : Engine) : FlushReport × Engine :=
  let (changed, scheduler) := e.scheduler.takePending
  let e := e.withState (e.state.withScheduler scheduler)
  let report : FlushReport := ⟨changed, 0, 0, 0⟩
  if changed = [] then (report, e)
  else
    let (bindings, report, e) := flushEach changed e.bindings report e
    let e := { e with bindings := bindings }
    (report, e.withState (e.state.log .debug report.describe))

/-! ## Unmounting -/

/-- Undoes a binding. -/
def unmountBinding (e : Engine) (b : Binding) : Engine :=
  let node := e.page.host.describe b.node
  let (failed, host) := b.cleanup e.page.host
  let e := e.withHost host
  match failed with
  | none => e
  | some error => e.capture (b.failure node ("cleanup failed: " ++ error.message))

/-- Undoes all bindings and forgets the pending changes. -/
def unmount (e : Engine) : Engine :=
  let cleaned := { e.bindings.foldl unmountBinding e with bindings := [] }
  let state := cleaned.state.withScheduler cleaned.scheduler.clear
  cleaned.withState (state.log .info s!"unmounted {e.bindings.length} binding(s)")

/-! ## Changes -/

/-- Writes a field of the state. -/
def setField (s : State) (entry : String × Value) : State :=
  (s.write fun store => store.setField Store.root store.rootObject entry.1 entry.2).2

/-- Writes the fields of an object into the state, one after the other. -/
def setState (e : Engine) (update : Datum) : Engine :=
  let (value, heap) := e.state.heap.place update
  let state := { e.state with store := { e.state.store with heap := heap } }
  match value with
  | .object id => e.withState ((heap.fields id).entries.foldl setField state)
  | other =>
    e.withState (state.record .invalidState (other.display heap)
      ("state updates must be objects, got " ++ other.typeName))

/-- Delivers an event to a node: the listeners do what they do to the state. The result
    is what they did. -/
def dispatch (e : Engine) (node : NodeId) (event : HostEvent) :
    Except HostError (List Reaction) × Engine :=
  match e.page.host.dispatch node event.name with
  | .error error => (.error error, e)
  | .ok reactions => (.ok reactions, e.withState (e.state.perform event reactions))

/-- Installs the host's way to be asked for frames. -/
def setFrameRequester (e : Engine) (requester : Script) : Engine :=
  e.withState (e.state.withScheduler (e.scheduler.setRequester requester))

/-- Adds an error handler; the result is its number. -/
def onError (e : Engine) (label : String) (script : Script) : Nat × Engine :=
  let (id, handlers) := e.handlers.add label script
  (id, { e with handlers := handlers })

/-- Takes an error handler away; the result is whether there was one. -/
def removeErrorHandler (e : Engine) (id : Nat) : Bool × Engine :=
  let (found, handlers) := e.handlers.remove id
  (found, { e with handlers := handlers })

/-- Forgets the recorded problems. -/
def clearDiagnostics (e : Engine) : Engine :=
  let journal := e.state.journal
  e.withState (e.state.withJournal { journal with diagnostics := journal.diagnostics.clear })

end Engine

end ReactiveTemplate
