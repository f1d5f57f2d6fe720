import ReactiveTemplate.Engine.Reaction
import ReactiveTemplate.Proofs.Scheduling.Windows

/-!
# What a state notes

While an engine works, its journal only grows: by problems, each of them recorded and written to
the log, and by lines. A change of the state joins the pending paths and leaves its own line, so
the log tells which paths were notified.

* `Journal.Grew`: the problems and the changes that a journal has more than before.
* `Tracked.Noted`: the same for a state, together with its pending paths.
* `Tracked.runScript_notified`: a script only notifies; `Tracked.perform_progressed`: reactions
  also record problems.
* `Tracked.Noted.pending`: what is pending is what was notified.
-/

namespace ReactiveTemplate

/-! ## Journals -/

namespace LogLine

/-- The line of a change. -/
def change (path : String) : LogLine := .message .trace ("change at '" ++ path ++ "'")

/-- Whether a line is the one of a change. -/
def isChange : LogLine → Bool
  | .message .trace text => "change at '".toList.isPrefixOf text.toList
  | _ => false

/-- Whether a line tells of an error. -/
def isError (line : LogLine) : Bool := line.level = .error

theorem isChange_change (path : String) : (change path).isChange = true := by
  rw [change, isChange, List.isPrefixOf_iff_prefix, String.toList_append, String.toList_append,
    List.append_assoc]
  exact List.prefix_append _ _

end LogLine

/-- The line of the log for a problem. -/
def Diagnostic.line (d : Diagnostic) : LogLine :=
  .message (if d.kind.isError then .error else .warn) d.describe

namespace Journal

variable {j j' j'' : Journal} {problems problems' : List Diagnostic} {changes changes' : List String}

/-- A journal has grown by some problems and some changes: the problems were recorded in order, and
    the log has the lines of both, and no other lines of errors or changes. -/
structure Grew (j j' : Journal) (problems : List Diagnostic) (changes : List String) : Prop where
  diagnostics : j'.diagnostics = problems.foldl Diagnostics.record j.diagnostics
  lines : ∃ added, j'.lines = j.lines ++ added ∧
    added.filter LogLine.isChange = changes.map LogLine.change ∧
    added.filter LogLine.isError =
      (problems.filter fun d => d.kind.isError).map Diagnostic.line

theorem Grew.refl (j : Journal) : j.Grew j [] [] := ⟨rfl, [], (List.append_nil _).symm, rfl, rfl⟩

theorem Grew.trans (h : j.Grew j' problems changes) (h' : j'.Grew j'' problems' changes') :
    j.Grew j'' (problems ++ problems') (changes ++ changes') := by
  obtain ⟨added, hlines, hchanges, herrors⟩ := h.lines
  obtain ⟨added', hlines', hchanges', herrors'⟩ := h'.lines
  refine ⟨?_, added ++ added', ?_, ?_, ?_⟩
  · rw [h'.diagnostics, h.diagnostics, List.foldl_append]
  · rw [hlines', hlines, List.append_assoc]
  · rw [List.filter_append, hchanges, hchanges', List.map_append]
  · rw [List.filter_append, List.filter_append, herrors, herrors', List.map_append]

/-- A line of the log that tells of neither an error nor a change. -/
theorem grew_log (j : Journal) {level : LogLevel} {text : String} (hlevel : level ≠ .error)
    (hchange : LogLine.isChange (.message level text) = false) : j.Grew (j.log level text) [] [] := by
  refine ⟨rfl, [.message level text], rfl, ?_, ?_⟩
  · simp [hchange]
  · simp [LogLine.isError, LogLine.level, hlevel]

theorem grew_change (j : Journal) (path : String) :
    j.Grew (j.log .trace ("change at '" ++ path ++ "'")) [] [path] := by
  refine ⟨rfl, [.change path], rfl, ?_, rfl⟩
  simp [LogLine.isChange_change]

theorem grew_record (j : Journal) (d : Diagnostic) : j.Grew (j.record d) [d] [] := by
  have hdrawing : ∀ drawn : Option String,
      (drawn.toList.map LogLine.drawing).filter LogLine.isChange = [] ∧
        (drawn.toList.map LogLine.drawing).filter LogLine.isError = [] := by
    rintro (_ | report) <;> exact ⟨rfl, rfl⟩
  obtain ⟨hchange, herror⟩ := hdrawing d.report
  refine ⟨rfl, d.line :: d.report.toList.map LogLine.drawing, ?_, ?_, ?_⟩
  · exact List.append_assoc ..
  · rw [List.filter_cons, hchange, Diagnostic.line]
    cases d.kind.isError <;> rfl
  · rw [List.filter_cons, herror]
    cases h : d.kind.isError <;> simp [LogLine.isError, LogLine.level, Diagnostic.line, h]

end Journal

/-! ## States -/

namespace Tracked

variable {s s' s'' : State} {problems problems' : List Diagnostic} {changes changes' : List String}

/-- The problems and the changes between two states: the changes were notified in order. -/
structure Noted (s s' : State) (problems : List Diagnostic) (changes : List String) : Prop where
  scheduler : s'.scheduler = changes.foldl (fun c path => (c.notify path).1) s.scheduler
  journal : s.journal.Grew s'.journal problems changes

theorem Noted.refl (s : State) : s.Noted s [] [] := ⟨rfl, .refl _⟩

theorem Noted.trans (h : s.Noted s' problems changes) (h' : s'.Noted s'' problems' changes') :
    s.Noted s'' (problems ++ problems') (changes ++ changes') :=
  ⟨by rw [h'.scheduler, h.scheduler, List.foldl_append], h.journal.trans h'.journal⟩

/-- Containers do not matter. -/
theorem Noted.withStore (h : s.Noted s' problems changes) (store : Store) :
    s.Noted { s' with store := store } problems changes := ⟨h.scheduler, h.journal⟩

theorem noted_record (s : State) (kind : DiagnosticKind) (source message : String) :
    s.Noted (s.record kind source message) [.plain kind source message] [] :=
  ⟨rfl, Journal.grew_record _ _⟩

theorem noted_log (s : State) {level : LogLevel} {text : String} (hlevel : level ≠ .error)
    (hchange : LogLine.isChange (.message level text) = false) :
    s.Noted (s.log level text) [] [] :=
  ⟨rfl, Journal.grew_log _ hlevel hchange⟩

/-- Between two states there were only changes. -/
def Notified (s s' : State) : Prop := ∃ changes, s.Noted s' [] changes

theorem Notified.refl (s : State) : s.Notified s := ⟨[], .refl s⟩

theorem Notified.trans (h : s.Notified s') (h' : s'.Notified s'') : s.Notified s'' := by
  obtain ⟨changes, h⟩ := h
  obtain ⟨changes', h'⟩ := h'
  exact ⟨changes ++ changes', h.trans h'⟩

theorem Notified.withStore (h : s.Notified s') (store : Store) :
    s.Notified { s' with store := store } := h.imp fun _ h => h.withStore store

/-- Between two states there were changes and problems. -/
def Progressed (s s' : State) : Prop := ∃ problems changes, s.Noted s' problems changes

theorem Progressed.refl (s : State) : s.Progressed s := ⟨[], [], .refl s⟩

theorem Progressed.trans (h : s.Progressed s') (h' : s'.Progressed s'') : s.Progressed s'' := by
  obtain ⟨problems, changes, h⟩ := h
  obtain ⟨problems', changes', h'⟩ := h'
  exact ⟨_, _, h.trans h'⟩

theorem Notified.progressed (h : s.Notified s') : s.Progressed s' := ⟨[], h⟩

/-! ## Scripts -/

section Announce

variable {announce : String → State → State}

/-- A way to tell of changes that does nothing else than to notify some. -/
def Speaks (announce : String → State → State) : Prop :=
  ∀ path (s : State), s.Notified (announce path s)

theorem writeWith_notified (ha : Speaks announce) (s : State) {α : Type}
    (f : Store → Written α) : s.Notified (writeWith announce s f).2 := by
  have hwritten := (Notified.refl s).withStore (f s.store).store
  rw [writeWith]
  dsimp only
  cases (f s.store).changed with
  | none => exact hwritten
  | some path => exact hwritten.trans (ha path _)

theorem placeAt_notified (ha : Speaks announce) (s : State) (path : String)
    (d : Datum) : s.Notified (placeAt announce s path d) := by
  rw [placeAt]
  split
  · exact .refl s
  · exact ((Notified.refl s).withStore _).trans (writeWith_notified ha _ _)

theorem runCommand_notified (ha : Speaks announce)
    (event : Option HostEvent) (s : State) (command : Command) :
    s.Notified (runCommand announce event s command) := by
  cases command with
  | set path d => exact placeAt_notified ha s path d
  | increment path =>
    rw [runCommand, numberAt?]
    by_cases hbars : s.store.barsRead path = true
    · simp only [if_pos hbars]
      exact .refl s
    simp only [if_neg hbars]
    cases s.store.getPath Store.root path with
    | mk read store =>
      have hread := (Notified.refl s).withStore store
      cases read with
      | error e => exact hread
      | ok read => exact hread.trans (placeAt_notified ha _ path _)
  | push path d =>
    rw [runCommand]
    by_cases hbars : s.store.barsRead path = true
    · simp only [if_pos hbars]
      exact .refl s
    simp only [if_neg hbars]
    cases s.store.getPath Store.root path with
    | mk read store =>
      have hread := (Notified.refl s).withStore store
      cases read with
      | error e => exact hread
      | ok read =>
        cases read with
        | value v => exact hread
        | view id =>
          dsimp only
          cases store.container id with
          | object object => exact hread
          | array array =>
            dsimp only
            split
            · exact hread
            · exact ((Notified.refl s).withStore _).trans (writeWith_notified ha _ _)
  | note path =>
    cases event with
    | none => exact .refl s
    | some event => exact placeAt_notified ha s path (.text (eventNote event))

theorem runScriptWith_notified (ha : Speaks announce)
    (event : Option HostEvent) (script : Script) :
    ∀ s : State, s.Notified (runScriptWith announce event s script) := by
  induction script with
  | nil => exact .refl
  | cons command script ih => exact fun s => (runCommand_notified ha event s command).trans (ih _)

end Announce

/-- Taking note of a change notifies it. -/
theorem noted_react (path : String) (s : State) :
    s.Noted { s with observer := (Monitor.react path s.observer).1 } [] [path] := by
  refine ⟨rfl, ?_⟩
  have hchange := s.journal.grew_change path
  show s.journal.Grew (Monitor.react path s.observer).1.journal [] [path]
  rw [Monitor.react]
  dsimp only
  split
  · exact hchange
  · exact hchange.trans (Journal.grew_log _ (by decide) rfl)

theorem speaks_announceWithin (depth : Nat) : Speaks (announceWithin depth) := by
  induction depth with
  | zero => exact fun path s => ⟨[path], noted_react path s⟩
  | succ depth ih =>
    intro path s
    have hnoted : s.Notified { s with observer := (Monitor.react path s.observer).1 } :=
      ⟨[path], noted_react path s⟩
    show s.Notified ((Monitor.react path s.observer).2.elim _ _)
    cases (Monitor.react path s.observer).2 with
    | none => exact hnoted
    | some script => exact hnoted.trans (runScriptWith_notified ih none script _)

theorem write_notified (s : State) {α : Type} (f : Store → Written α) :
    s.Notified (s.write f).2 := writeWith_notified (speaks_announceWithin _) s f

theorem runScript_notified (s : State) (event : Option HostEvent) (script : Script) :
    s.Notified (s.runScript event script) :=
  runScriptWith_notified (speaks_announceWithin _) event script s

/-! ## Reactions -/

theorem assign_progressed (s : State) (source path : String) (value : Value) :
    s.Progressed (s.assign source path value) := by
  have hwritten := (write_notified s fun store => store.setPath Store.root path value).progressed
  rw [assign]
  split
  · exact .refl s
  split
  · next heq =>
    rw [heq] at hwritten
    exact hwritten
  · next heq =>
    rw [heq] at hwritten
    exact hwritten.trans ⟨_, _, noted_record _ _ _ _⟩

theorem progressed_notFunction (s : State) (name : String) :
    s.Progressed (s.log .debug ("'" ++ name ++ "' is not a function in state")) :=
  ⟨_, _, noted_log s (by decide) rfl⟩

theorem call_progressed (s : State) (event : HostEvent) (name : String) :
    s.Progressed (s.call event name) := by
  rw [call]
  split
  · exact .refl s
  cases s.store.getField Store.root s.store.rootObject name with
  | mk read store =>
    have hread := ((Notified.refl s).withStore store).progressed
    dsimp only
    split
    · exact hread.trans (runScript_notified _ _ _).progressed
    · exact hread.trans (progressed_notFunction _ name)

theorem step_progressed (s : State) (source path : String) (direction : Direction) :
    s.Progressed (s.step source path direction) := by
  rw [step]
  split
  · exact .refl s
  cases s.store.getPath Store.root path with
  | mk read store =>
    have hread := ((Notified.refl s).withStore store).progressed
    cases read with
    | error e => exact hread.trans ⟨_, _, noted_record _ _ _ _⟩
    | ok read => exact hread.trans (assign_progressed _ _ _ _)

theorem act_progressed (s : State) (event : HostEvent) (action : EventAction) :
    s.Progressed (s.act event action) := by
  cases action with
  | call name => exact call_progressed s event name
  | step target direction => exact step_progressed s _ _ direction
  | assign target value =>
    cases value with
    | literal l => exact assign_progressed s _ _ _
    | path p =>
      rw [act]
      cases resolvePath s.heap s.scope p with
      | error e => exact ⟨_, _, noted_record _ _ _ _⟩
      | ok value => exact assign_progressed s _ _ _

theorem react_progressed (event : HostEvent) (s : State) (reaction : Reaction) :
    s.Progressed (react event s reaction) := by
  cases reaction with
  | note label => exact .refl s
  | input path => exact assign_progressed s _ _ _
  | run action => exact act_progressed s event action

theorem perform_progressed (event : HostEvent) (reactions : List Reaction) :
    ∀ s : State, s.Progressed (s.perform event reactions) := by
  induction reactions with
  | nil => exact .refl
  | cons reaction reactions ih => exact fun s => (react_progressed event s reaction).trans (ih _)

/-! ## Pending paths -/

theorem pending_foldl_notify {ρ : Type} (changes : List String) : ∀ {c : Scheduler ρ} noted,
    c.pending = noted.eraseDups →
      (changes.foldl (fun c path => (c.notify path).1) c).pending =
        (noted ++ changes).eraseDups := by
  induction changes with
  | nil =>
    intro c noted h
    rwa [List.append_nil]
  | cons path changes ih =>
    intro c noted h
    rw [List.foldl_cons, List.append_cons]
    refine ih (noted ++ [path]) ?_
    rw [Scheduler.pending_notify, eraseDups_append_singleton, h]

/-- If nothing was pending, it is now what was notified, by the first notification. -/
theorem Noted.pending (h : s.Noted s' problems changes) (hnone : s.scheduler.pending = []) :
    s'.scheduler.pending = changes.eraseDups := by
  rw [h.scheduler]
  exact pending_foldl_notify changes [] hnone

/-- What is pending stays so. -/
theorem Progressed.pending (h : s.Progressed s') :
    s.scheduler.pending ⊆ s'.scheduler.pending := by
  obtain ⟨problems, changes, h⟩ := h
  rw [h.scheduler]
  have hkept : ∀ (changes : List String) (c : Scheduler Script),
      c.pending ⊆ (changes.foldl (fun c path => (c.notify path).1) c).pending := by
    intro changes
    induction changes with
    | nil => exact fun _ => List.Subset.refl _
    | cons path changes ih =>
      intro c
      refine List.Subset.trans ?_ (ih (c.notify path).1)
      rw [Scheduler.pending_notify]
      split
      · exact List.Subset.refl _
      · exact List.subset_append_left _ _
  exact hkept changes s.scheduler

end Tracked

end ReactiveTemplate
