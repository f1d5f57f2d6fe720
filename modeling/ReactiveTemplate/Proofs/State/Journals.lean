import ReactiveTemplate.Proofs.State.Reactions

/-!
# States with different journals

What an engine logs and records has no influence on its state. States that differ in their
journals only do so after the same steps, too.

* `Tracked.Alike`: states that differ in their journals only.
* `Tracked.Deaf`, `Tracked.writeWith_alike`: telling of a change, and a write.
* `Tracked.perform_alike`: reactions. Notes of the host can be left out.
* `Tracked.Evolves.alike`: an evolution is told by the store and the pending paths.
-/

namespace ReactiveTemplate

namespace Tracked

/-- States that differ in their journals only. -/
structure Alike (s s' : State) : Prop where
  store : s'.store = s.store
  scheduler : s'.scheduler = s.scheduler

variable {s s' : State}

theorem Alike.refl (s : State) : s.Alike s := ⟨rfl, rfl⟩

theorem Alike.heap (h : s.Alike s') : s'.heap = s.heap := congrArg Store.heap h.store

theorem Alike.scope (h : s.Alike s') : s'.scope = s.scope := by
  rw [Tracked.scope, h.store, Tracked.scope]

theorem Alike.withStore (h : s.Alike s') (store : Store) :
    Alike { s with store := store } { s' with store := store } := ⟨rfl, h.scheduler⟩

theorem Alike.withJournals (h : s.Alike s') (journal journal' : Journal) :
    (s.withJournal journal).Alike (s'.withJournal journal') := ⟨h.store, h.scheduler⟩

/-! ## Changes -/

section Announce

variable {announce : String → State → State}

/-- A way to tell of changes that does not read the journal. -/
def Deaf (announce : String → State → State) : Prop :=
  ∀ path {s s' : State}, s.Alike s' → (announce path s).Alike (announce path s')

theorem writeWith_alike (ha : Deaf announce) (h : s.Alike s') {α : Type} (f : Store → Written α) :
    (writeWith announce s' f).1 = (writeWith announce s f).1 ∧
      (writeWith announce s f).2.Alike (writeWith announce s' f).2 := by
  rw [writeWith, writeWith, h.store]
  dsimp only
  refine ⟨rfl, ?_⟩
  cases (f s.store).changed with
  | none => exact h.withStore _
  | some path => exact ha path (h.withStore _)

theorem placeAt_alike (ha : Deaf announce) (h : s.Alike s') (path : String) (d : Datum) :
    (placeAt announce s path d).Alike (placeAt announce s' path d) := by
  rw [placeAt, placeAt, h.store]
  split
  · exact h
  · exact (writeWith_alike ha (h.withStore _) _).2

theorem runCommand_alike (ha : Deaf announce) (h : s.Alike s') (event : Option HostEvent)
    (command : Command) :
    (runCommand announce event s command).Alike (runCommand announce event s' command) := by
  cases command with
  | set path d => exact placeAt_alike ha h path d
  | increment path =>
    rw [runCommand, runCommand, numberAt?, numberAt?, h.store]
    by_cases hbars : s.store.barsRead path = true
    · simp only [if_pos hbars]
      exact h
    simp only [if_neg hbars]
    cases s.store.getPath Store.root path with
    | mk read store =>
      cases read with
      | error e => exact h.withStore store
      | ok read => exact placeAt_alike ha (h.withStore store) path _
  | push path d =>
    rw [runCommand, runCommand, h.store]
    by_cases hbars : s.store.barsRead path = true
    · simp only [if_pos hbars]
      exact h
    simp only [if_neg hbars]
    cases s.store.getPath Store.root path with
    | mk read store =>
      cases read with
      | error e => exact h.withStore store
      | ok read =>
        cases read with
        | value v => exact h.withStore store
        | view id =>
          dsimp only
          cases store.container id with
          | object object => exact h.withStore store
          | array array =>
            dsimp only
            split
            · exact h.withStore store
            · exact (writeWith_alike ha (h.withStore _) _).2
  | note path =>
    cases event with
    | none => exact h
    | some event => exact placeAt_alike ha h path (.text (eventNote event))

theorem runScriptWith_alike (ha : Deaf announce) (event : Option HostEvent) (script : Script) :
    ∀ {s s' : State}, s.Alike s' →
      (runScriptWith announce event s script).Alike (runScriptWith announce event s' script) := by
  induction script with
  | nil => exact fun h => h
  | cons command script ih => exact fun h => ih (runCommand_alike ha h event command)

end Announce

theorem deaf_announceWithin (depth : Nat) : Deaf (announceWithin depth) := by
  have hreact : ∀ path {s s' : State}, s.Alike s' →
      (Monitor.react path s'.observer).2 = (Monitor.react path s.observer).2 ∧
        Alike { s with observer := (Monitor.react path s.observer).1 }
          { s' with observer := (Monitor.react path s'.observer).1 } := by
    intro path s s' h
    have hscheduler : s'.observer.scheduler = s.observer.scheduler := h.scheduler
    refine ⟨?_, h.store, ?_⟩
    · show (s'.observer.scheduler.notify path).2 = (s.observer.scheduler.notify path).2
      rw [hscheduler]
    · show (s'.observer.scheduler.notify path).1 = (s.observer.scheduler.notify path).1
      rw [hscheduler]
  induction depth with
  | zero => exact fun path s s' h => (hreact path h).2
  | succ depth ih =>
    intro path s s' h
    obtain ⟨hscript, hnoted⟩ := hreact path h
    have hannounce : ∀ t : State, announceWithin (depth + 1) path t =
        (Monitor.react path t.observer).2.elim { t with observer := (Monitor.react path t.observer).1 }
          (runScriptWith (announceWithin depth) none
            { t with observer := (Monitor.react path t.observer).1 }) := fun t => rfl
    rw [hannounce, hannounce, hscript]
    cases (Monitor.react path s.observer).2 with
    | none => exact hnoted
    | some script => exact runScriptWith_alike ih none script hnoted

theorem deaf_announce : Deaf announce := deaf_announceWithin _

theorem write_alike (h : s.Alike s') {α : Type} (f : Store → Written α) :
    (s'.write f).1 = (s.write f).1 ∧ (s.write f).2.Alike (s'.write f).2 :=
  writeWith_alike deaf_announce h f

theorem runScript_alike (h : s.Alike s') (event : Option HostEvent) (script : Script) :
    (s.runScript event script).Alike (s'.runScript event script) :=
  runScriptWith_alike deaf_announce event script h

/-! ## Reactions -/

theorem assign_alike (h : s.Alike s') (source path : String) (value : Value) :
    (s.assign source path value).Alike (s'.assign source path value) := by
  obtain ⟨hresult, hwritten⟩ := write_alike h fun store => store.setPath Store.root path value
  rw [assign, assign, h.store]
  split
  · exact h
  cases hw : s.write fun store => store.setPath Store.root path value with
  | mk result written =>
    cases hw' : s'.write fun store => store.setPath Store.root path value with
    | mk result' written' =>
      rw [hw, hw'] at hresult hwritten
      obtain rfl : result' = result := hresult
      cases result' with
      | ok _ => exact hwritten
      | error e => exact hwritten.withJournals _ _

theorem call_alike (h : s.Alike s') (event : HostEvent) (name : String) :
    (s.call event name).Alike (s'.call event name) := by
  rw [call, call, h.heap, h.store]
  split
  · exact h
  cases s.store.getField Store.root s.store.rootObject name with
  | mk read store =>
    have hread := h.withStore store
    cases read with
    | view id => exact hread.withJournals _ _
    | value v =>
      cases v with
      | function id => exact runScript_alike hread (some event) _
      | _ => exact hread.withJournals _ _

theorem step_alike (h : s.Alike s') (source path : String) (direction : Direction) :
    (s.step source path direction).Alike (s'.step source path direction) := by
  rw [step, step, h.store]
  split
  · exact h
  cases s.store.getPath Store.root path with
  | mk read store =>
    have hread := h.withStore store
    cases read with
    | error e => exact hread.withJournals _ _
    | ok read => exact assign_alike hread _ _ _

theorem act_alike (h : s.Alike s') (event : HostEvent) (action : EventAction) :
    (s.act event action).Alike (s'.act event action) := by
  cases action with
  | call name => exact call_alike h event name
  | step target direction => exact step_alike h event.name target.dotted direction
  | assign target value =>
    cases value with
    | literal l => exact assign_alike h _ _ _
    | path p =>
      rw [act, act, h.heap, h.scope]
      cases resolvePath s.heap s.scope p with
      | error e => exact h.withJournals _ _
      | ok value => exact assign_alike h _ _ _

theorem react_alike (h : s.Alike s') (event : HostEvent) (reaction : Reaction) :
    (react event s reaction).Alike (react event s' reaction) := by
  cases reaction with
  | note label => exact h
  | input path => exact assign_alike h _ _ _
  | run action => exact act_alike h event action

theorem perform_alike (event : HostEvent) (reactions : List Reaction) :
    ∀ {s s' : State}, s.Alike s' →
      (s.perform event reactions).Alike (s'.perform event reactions) := by
  induction reactions with
  | nil => exact fun h => h
  | cons reaction reactions ih => exact fun h => ih (react_alike h event reaction)

end Tracked

/-- Whether a reaction changes the state. Notes of the host do not. -/
def Reaction.acts : Reaction → Bool
  | .note _ => false
  | _ => true

namespace Tracked

variable {s s' : State}

/-- Notes of the host can be left out. -/
theorem perform_filter (event : HostEvent) (reactions : List Reaction) :
    ∀ s : State, s.perform event (reactions.filter Reaction.acts) = s.perform event reactions := by
  induction reactions with
  | nil => exact fun s => rfl
  | cons reaction reactions ih =>
    intro s
    cases reaction with
    | note label => exact ih s
    | input path => exact ih _
    | run action => exact ih _

/-! ## Evolutions -/

theorem Orderly.alike (hs : s.Orderly) (h : s.Alike s') : s'.Orderly := by
  constructor
  case invariant =>
    rw [h.store]
    exact hs.invariant
  case unshared =>
    rw [Unshared, h.heap, h.store]
    exact hs.unshared
  case requester =>
    rw [h.scheduler]
    exact hs.requester

/-- An evolution is told by the store and the pending paths. -/
theorem Evolves.alike {t t' : State} (hs : s.Evolves t) (h : s.Alike s') (h' : t.Alike t') :
    s'.Evolves t' := by
  constructor
  case orderly => exact hs.orderly.alike h'
  case root =>
    rw [h.store, h'.store]
    exact hs.root
  case known =>
    rw [h.heap, h'.heap]
    exact hs.known
  case pending =>
    rw [h.scheduler, h'.scheduler]
    exact hs.pending
  case reads =>
    rw [h.heap, h.scope, h'.heap, h'.scheduler]
    exact hs.reads

end Tracked

end ReactiveTemplate
