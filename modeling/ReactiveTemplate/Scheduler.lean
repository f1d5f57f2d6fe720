/-!
# Scheduler

Gathers the paths of changes until the next flush. The first change after a flush asks
the host for a frame, later ones only join the pending paths.

* `Scheduler.notify`: a change.
* `Scheduler.takePending`: the paths a flush has to handle.
* `Scheduler.notifyEchoing`: a change whose frame request makes further changes.
-/

namespace ReactiveTemplate

/-- The pending paths in the order of their first notification, whether a flush is
    scheduled, the host's way to be asked for frames, and how often it was asked. -/
structure Scheduler (ρ : Type) where
  pending : List String
  scheduled : Bool
  requester : Option ρ
  framesRequested : Nat
  calls : Nat

namespace Scheduler

variable {ρ : Type}

/-- Nothing pending and no way to ask for frames. -/
def empty : Scheduler ρ := ⟨[], false, none, 0, 0⟩

instance : Inhabited (Scheduler ρ) := ⟨empty⟩

/-- Adds a path to the pending ones, once. -/
def join (s : Scheduler ρ) (path : String) : Scheduler ρ :=
  { s with pending := if path ∈ s.pending then s.pending else s.pending ++ [path] }

/-- Notes a change at a path. The result is the requester to call: the installed one if
    this is the first change after a flush. -/
def notify (s : Scheduler ρ) (path : String) : Scheduler ρ × Option ρ :=
  let joined := s.join path
  if s.scheduled then (joined, none)
  else
    ({ joined with
        scheduled := true
        framesRequested := s.framesRequested + 1
        calls := s.calls + s.requester.toList.length }, s.requester)

/-- Takes the pending paths out. Later changes ask for a new frame. -/
def takePending (s : Scheduler ρ) : List String × Scheduler ρ :=
  (s.pending, { s with pending := [], scheduled := false })

/-- Forgets the pending paths. -/
def clear (s : Scheduler ρ) : Scheduler ρ := s.takePending.2

/-- Installs the host's way to be asked for frames. -/
def setRequester (s : Scheduler ρ) (requester : ρ) : Scheduler ρ :=
  { s with requester := some requester }

/-- Notes a change, where a requester is the list of paths that it notifies in turn
    when it is called. -/
def notifyEchoing (s : Scheduler (List String)) (path : String) : Scheduler (List String) :=
  let (s, called) := s.notify path
  (called.getD []).foldl (fun s echo => (s.notify echo).1) s

end Scheduler

end ReactiveTemplate
