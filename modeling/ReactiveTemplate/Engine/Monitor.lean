import ReactiveTemplate.Diagnostics
import ReactiveTemplate.Evaluation.Evaluate
import ReactiveTemplate.Scheduler
import ReactiveTemplate.Store.Tracked

/-!
# The observer of an engine

An engine observes its own state: a change joins the paths of the next flush, the first
one asks the host for a frame, and all of it is logged.

* `Monitor`: scheduler and journal, as an observer of the state.
* `State`: the tracked state of an engine.
-/

namespace ReactiveTemplate

/-- What an engine keeps of the changes and problems so far. A frame requester is a
    script that runs on the state. -/
structure Monitor where
  scheduler : Scheduler Script
  journal : Journal

namespace Monitor

/-- Notes a change, and answers the first one after a flush with the frame requester. -/
def react (path : String) (m : Monitor) : Monitor × Option Script :=
  let journal := m.journal.log .trace ("change at '" ++ path ++ "'")
  let (scheduler, requester) := m.scheduler.notify path
  let journal := if m.scheduler.scheduled then journal
    else journal.log .debug ("flush scheduled by change at '" ++ path ++ "'")
  (⟨scheduler, journal⟩, requester)

/-- What a frame requester changes finds a flush scheduled already, so no requester runs
    inside another. -/
instance : Observer Monitor := ⟨react, 1⟩

end Monitor

/-- The tracked state of an engine. -/
abbrev State := Tracked Monitor

namespace Tracked

/-- The journal of an engine. -/
def journal (s : State) : Journal := s.observer.journal

/-- The scheduler of an engine. -/
def scheduler (s : State) : Scheduler Script := s.observer.scheduler

/-- Replaces the journal. -/
def withJournal (s : State) (journal : Journal) : State :=
  { s with observer := { s.observer with journal := journal } }

/-- Replaces the scheduler. -/
def withScheduler (s : State) (scheduler : Scheduler Script) : State :=
  { s with observer := { s.observer with scheduler := scheduler } }

/-- Writes a line to the log. -/
def log (s : State) (level : LogLevel) (text : String) : State :=
  s.withJournal (s.journal.log level text)

/-- Records a problem. -/
def record (s : State) (kind : DiagnosticKind) (source message : String) : State :=
  s.withJournal (s.journal.record (.plain kind source message))

/-- Records a syntax error. -/
def recordSyntax (s : State) (kind : DiagnosticKind) (source : String) (error : SyntaxError) :
    State :=
  s.withJournal (s.journal.record (.ofSyntaxError kind source error))

/-- The containers of the state. -/
def heap (s : State) : Heap := s.store.heap

/-- The scope of the names of the state. -/
def scope (s : State) : Scope := .object s.store.rootObject

end Tracked

end ReactiveTemplate
