import ReactiveTemplate.Proofs.Engine.Displays
import ReactiveTemplate.Proofs.Engine.Zones
import ReactiveTemplate.Proofs.State.Notes

/-!
# Flushes, binding by binding

A flush visits the bindings one after the other. What becomes of one, a failure included, has no
influence on whether the next ones are visited: a failure is recorded and told to the error
handlers, and what these change waits for the next flush.

* `Fate`, `Engine.Visits`: what becomes of the bindings in a flush.
* `Page.update_reported`: an update records no failure of a binding, and notifies nothing.
* `Engine.capture_told`: what follows a failure.
* `ErrorHandlers.standing`: the handlers that were added and not taken away.
* `Engine.flush_accounts`: the report, the calls of handlers, the records and the pending paths.
-/

namespace ReactiveTemplate

/-! ## Updates of pages -/

namespace Page

variable {page page' page'' : Page}

/-- Between two pages some problems were recorded, none of them the failure of a binding, and
    nothing was notified. -/
def Reported (page page' : Page) : Prop :=
  ∃ problems, page.state.Noted page'.state problems [] ∧
    ∀ d ∈ problems, d.kind ≠ .bindingUpdateError

theorem Reported.refl (page : Page) : page.Reported page := ⟨[], .refl _, nofun⟩

theorem Reported.trans (h : page.Reported page') (h' : page'.Reported page'') :
    page.Reported page'' := by
  obtain ⟨problems, hnoted, hkinds⟩ := h
  obtain ⟨problems', hnoted', hkinds'⟩ := h'
  refine ⟨problems ++ problems', hnoted.trans hnoted', fun d hd => ?_⟩
  exact (List.mem_append.1 hd).elim (hkinds d) (hkinds' d)

theorem Reported.withHost (h : page.Reported page') (host : HostTree Reaction) :
    page.Reported { page' with host := host } := h

theorem Reported.edit (h : page.Reported page') (edited : Except HostError (HostTree Reaction)) :
    page.Reported (page'.edit edited).2 := by
  cases edited <;> exact h

theorem record_reported (page : Page) {kind : DiagnosticKind} (hkind : kind ≠ .bindingUpdateError)
    (source message : String) : page.Reported (page.record kind source message) := by
  refine ⟨_, Tracked.noted_record _ _ _ _, fun d hd => ?_⟩
  rw [List.mem_singleton.1 hd]
  exact hkind

theorem compile_reported (page : Page) (text : String) (marker : ContextMarker) :
    page.Reported (page.compile text marker).2 := by
  have hline := fun source => LogLine.isChange_compiled source marker
  show ∃ problems, page.state.Noted (page.state.withJournal
    (page.cache.compile page.state.journal text marker).journal) problems [] ∧ _
  rw [ExpressionCache.compile]
  dsimp only
  split
  · exact ⟨[], ⟨rfl, .refl _⟩, List.forall_mem_nil _⟩
  · split
    · refine ⟨_, ⟨rfl, (Journal.grew_record _ _).trans (Journal.grew_log _ (by decide) (hline _))⟩, ?_⟩
      intro d hd
      rw [List.append_nil, List.mem_singleton] at hd
      rw [hd, Diagnostic.ofSyntaxError]
      rintro ⟨⟩
    · exact ⟨[], ⟨rfl, Journal.grew_log _ (by decide) (hline _)⟩, List.forall_mem_nil _⟩

theorem evaluate_reported (page : Page) (expression : CompiledExpression) (scope : Scope) :
    page.Reported (page.evaluate expression scope).2 := by
  rw [evaluate]
  split
  · exact .refl page
  · exact page.record_reported (by decide) _ _

theorem renderElement_reported (kind : DirectiveKind) (scope : Scope) (page : Page)
    (element : NodeId) : page.Reported (renderElement kind scope page element).2 := by
  rw [renderElement]
  split
  · exact .refl page
  · next source _ =>
    have hvalue := (page.compile_reported source .loop).trans (evaluate_reported _
      (page.compile source .loop).1 scope)
    cases kind <;> exact hvalue.edit _

theorem renderCopy_reported (page : Page) (copy : NodeId) (item : String) (value : Value) :
    page.Reported (page.renderCopy copy item value).2 := by
  refine untilFailure_keeps (fun kind _ page' h => h.trans ?_) page (.refl page)
  rw [renderKind]
  split
  · exact .refl page'
  · exact untilFailure_keeps (fun element _ page'' h => h.trans (renderElement_reported _ _ _ _))
      page' (.refl page')

theorem placeCopy_reported (page : Page) (anchor copy : NodeId) (item : String) (value : Value) :
    page.Reported (page.placeCopy anchor copy item value).2 := by
  have hrendered := page.renderCopy_reported copy item value
  rw [placeCopy]
  generalize page.renderCopy copy item value = r at hrendered
  obtain ⟨_ | _, page'⟩ := r
  · exact hrendered
  · exact hrendered.withHost _

theorem renderItems_reported (item : String) (template : NodeId) (earlier : Option HostError)
    (values : List Value) : ∀ (anchor : NodeId) (rendered : List NodeId) (page : Page),
      page.Reported (renderItems item template earlier values anchor rendered page).2.2 := by
  induction values with
  | nil => exact fun _ _ page => .refl page
  | cons value values ih =>
    intro anchor rendered page
    rw [renderItems, editPartly]
    rcases page.host.cloneNode template with ⟨e | copy, t⟩
    · exact (Reported.refl page).withHost t
    · have hplaced := placeCopy_reported { page with host := t } anchor copy item value
      dsimp only
      generalize placeCopy { page with host := t } anchor copy item value = r at hplaced
      obtain ⟨e | _, page'⟩ := r
      · exact hplaced.edit _
      · exact hplaced.trans (ih copy _ page')

theorem listAt_reported (page : Page) (path : Path) : page.Reported (page.listAt path).2 := by
  rw [listAt]
  split
  · exact page.record_reported (by decide) _ _
  · split
    · exact page.record_reported (by decide) _ _
    · exact .refl page
  · exact ⟨[], Tracked.noted_log _ (by decide) rfl, List.forall_mem_nil _⟩

theorem updateRepetition_reported (page : Page) (clause : ForClause)
    (template placeholder : NodeId) (rendered : List NodeId) :
    page.Reported (page.updateRepetition clause template placeholder rendered).2.2 := by
  have hlist := page.listAt_reported clause.list
  rw [updateRepetition]
  generalize page.listAt clause.list = found at hlist
  obtain ⟨_ | values, page'⟩ := found
  · exact hlist
  · exact (hlist.withHost _).trans (renderItems_reported _ _ _ _ _ _ _)

/-- An update records no failure of a binding, and notifies nothing. -/
theorem update_reported (page : Page) (b : Binding) : page.Reported (page.update b).2.2 := by
  have hvalue := page.evaluate_reported
  show page.Reported (page.updateDirective b.node b.directive).2.2
  cases b.directive with
  | text expression shown =>
    have hvalue := hvalue expression page.state.scope
    rw [updateDirective, updateText]
    dsimp only
    split
    · exact hvalue
    · have hedited := hvalue.edit ((page.evaluate expression page.state.scope).2.host.setText b.node
        ((page.evaluate expression page.state.scope).2.textOf
          (page.evaluate expression page.state.scope).1))
      split <;> next heq => rwa [heq] at hedited
  | visibility expression => exact (hvalue expression _).edit _
  | presence expression placeholder present =>
    have hvalue := hvalue expression page.state.scope
    rw [updateDirective, updatePresence]
    dsimp only
    split
    · exact hvalue
    · split <;> next heq => exact (congrArg Prod.snd heq).symm ▸ hvalue.withHost _
  | repetition clause template placeholder rendered =>
    exact page.updateRepetition_reported clause template placeholder rendered
  | model expression listener =>
    have hvalue := hvalue expression page.state.scope
    rw [updateDirective, updateModel]
    dsimp only
    split
    · exact hvalue
    · split
      · exact hvalue
      · exact hvalue.edit _
  | events listeners => exact .refl page

end Page

/-! ## Failures -/

/-- The record of a failure. -/
def BindingFailure.problem (f : BindingFailure) : Diagnostic :=
  .plain .bindingUpdateError f.node f.describe

/-- The calls of some handlers for a failure, in order. -/
def ErrorHandlers.calls (handlers : List ErrorHandler) (f : BindingFailure) : List HandlerCall :=
  handlers.map fun h => ⟨h.label, f⟩

/-- A step with the handlers of failures. -/
inductive HandlerStep where
  | add (label : String) (script : Script)
  | remove (id : Nat)

/-- Whether a step takes away the handler with a number. -/
def HandlerStep.removes (id : Nat) : HandlerStep → Bool
  | .add .. => false
  | .remove other => id = other

namespace ErrorHandlers

/-- The handlers after a step. -/
def step (hs : ErrorHandlers) : HandlerStep → ErrorHandlers
  | .add label script => (hs.add label script).2
  | .remove id => (hs.remove id).2

/-- The handlers after some steps. -/
def run (steps : List HandlerStep) : ErrorHandlers := steps.foldl step empty

/-- The handlers that some steps add and no later one takes away, in the order in which they were
    added. Handlers are numbered as they come. -/
def standing : Nat → List HandlerStep → List ErrorHandler
  | _, [] => []
  | next, .add label script :: rest =>
    if rest.any (HandlerStep.removes next) then standing (next + 1) rest
    else ⟨next, label, script⟩ :: standing (next + 1) rest
  | next, .remove _ :: rest => standing next rest

theorem entries_foldl_step (steps : List HandlerStep) : ∀ hs : ErrorHandlers,
    (steps.foldl step hs).entries =
      (hs.entries.filter fun h => !steps.any (HandlerStep.removes h.id)) ++
        standing hs.next steps := by
  induction steps with
  | nil => exact fun hs => by simp [standing]
  | cons first rest ih =>
    intro hs
    rw [List.foldl_cons, ih]
    cases first with
    | add label script =>
      simp only [step, add, standing, List.filter_append, List.any_cons, HandlerStep.removes,
        Bool.false_or, List.append_assoc]
      split <;> simp [*]
    | remove id =>
      simp only [step, remove, standing, List.filter_filter, List.any_cons, HandlerStep.removes,
        Bool.not_or, decide_not, Bool.and_comm]

/-- The handlers after some steps are those that were added and not taken away. -/
theorem entries_run (steps : List HandlerStep) : (run steps).entries = standing 0 steps :=
  entries_foldl_step steps empty

end ErrorHandlers

namespace Engine

variable {e e' e'' : Engine}

theorem callHandlers_told (failure : BindingFailure) (handlers : List ErrorHandler) :
    ∀ e : Engine, let e' := handlers.foldl (callHandler failure) e
      e.state.Notified e'.state ∧ e'.calls = e.calls ++ ErrorHandlers.calls handlers failure ∧
        e'.handlers = e.handlers := by
  induction handlers with
  | nil => exact fun e => ⟨.refl _, (List.append_nil _).symm, rfl⟩
  | cons h handlers ih =>
    intro e
    obtain ⟨hnotified, hcalls, hhandlers⟩ := ih (callHandler failure e h)
    have hscript : e.state.Notified (callHandler failure e h).state :=
      Tracked.runScript_notified _ _ _
    refine ⟨hscript.trans hnotified, hcalls.trans ?_, hhandlers⟩
    exact List.append_assoc ..

/-- What happened between two engines, if some bindings failed in between: the failures were
    recorded once each, and the handlers were called for them in order. -/
structure Told (e e' : Engine) (failures : List BindingFailure) : Prop where
  noted : ∃ problems changes, e.state.Noted e'.state problems changes ∧
    (problems.filter fun d => d.kind = .bindingUpdateError) = failures.map BindingFailure.problem
  calls : e'.calls = e.calls ++ failures.flatMap (ErrorHandlers.calls e.handlers.entries)
  handlers : e'.handlers = e.handlers

theorem Told.refl (e : Engine) : e.Told e [] := ⟨⟨[], [], .refl _, rfl⟩, (List.append_nil _).symm, rfl⟩

theorem Told.trans {failures failures' : List BindingFailure} (h : e.Told e' failures)
    (h' : e'.Told e'' failures') : e.Told e'' (failures ++ failures') := by
  obtain ⟨problems, changes, hnoted, hproblems⟩ := h.noted
  obtain ⟨problems', changes', hnoted', hproblems'⟩ := h'.noted
  refine ⟨⟨_, _, hnoted.trans hnoted', ?_⟩, ?_, h'.handlers.trans h.handlers⟩
  · rw [List.filter_append, hproblems, hproblems', List.map_append]
  · rw [h'.calls, h.calls, h.handlers, List.flatMap_append, List.append_assoc]

/-- An update of the page tells of no failure. -/
theorem told_of_reported {page : Page} (h : e.page.Reported page) :
    e.Told { e with page := page } [] := by
  obtain ⟨problems, hnoted, hkinds⟩ := h
  refine ⟨⟨problems, [], hnoted, ?_⟩, (List.append_nil _).symm, rfl⟩
  exact List.filter_eq_nil_iff.2 fun d hd hkind => hkinds d hd (of_decide_eq_true hkind)

/-- A failure is recorded, and every handler is called once. -/
theorem capture_told (e : Engine) (failure : BindingFailure) :
    e.Told (e.capture failure) [failure] := by
  let recorded : Engine :=
    { e with page := e.page.record .bindingUpdateError failure.node failure.describe }
  obtain ⟨⟨changes, hnotified⟩, hcalls, hhandlers⟩ :=
    callHandlers_told failure e.handlers.entries recorded
  have hrecorded : e.state.Noted recorded.state [failure.problem] [] := Tracked.noted_record _ _ _ _
  exact ⟨⟨_, _, hrecorded.trans hnotified, rfl⟩, hcalls.trans (by simp [recorded]), hhandlers⟩

end Engine

/-! ## Visits -/

/-- What became of a binding in a flush. -/
inductive Fate where
  | skipped
  | updated
  | failed (failure : BindingFailure)
  deriving DecidableEq

namespace Fate

/-- The failure of a binding that failed. -/
def failure? : Fate → Option BindingFailure
  | failed failure => some failure
  | _ => none

/-- The failures among what became of some bindings, in order. -/
def failures (fates : List Fate) : List BindingFailure := fates.filterMap failure?

variable {fates : List Fate}

@[simp]
theorem failures_skipped : failures (skipped :: fates) = failures fates := rfl

@[simp]
theorem failures_updated : failures (updated :: fates) = failures fates := rfl

@[simp]
theorem failures_failed {failure : BindingFailure} :
    failures (failed failure :: fates) = failure :: failures fates := rfl

/-- Each binding has one fate. -/
theorem count_add_count_add_length (fates : List Fate) :
    fates.count updated + fates.count skipped + (failures fates).length = fates.length := by
  induction fates with
  | nil => rfl
  | cons fate fates ih => cases fate <;> simp <;> omega

end Fate

namespace Engine

variable {e e' : Engine} {changed : List String} {b : Binding} {bs bs' : List Binding}

/-- A flush visits bindings in order, and leaves for each of them how it is now and what became of
    it. A binding that changes cannot affect is skipped; any other one is updated, in the engine
    that the ones before it have left, whether or not they failed. -/
inductive Visits (changed : List String) :
    Engine → List Binding → List Fate → List Binding → Engine → Prop where
  | done (e : Engine) : Visits changed e [] [] [] e
  | skip {e e' : Engine} {b : Binding} {bs bs' : List Binding} {fates : List Fate} :
    b.isAffectedBy changed = false → Visits changed e bs fates bs' e' →
    Visits changed e (b :: bs) (.skipped :: fates) (b :: bs') e'
  | update {e e' : Engine} {b b' : Binding} {bs bs' : List Binding} {fates : List Fate}
      {page : Page} :
    b.isAffectedBy changed = true → e.page.update b = (.ok (), b', page) →
    Visits changed { e with page := page } bs fates bs' e' →
    Visits changed e (b :: bs) (.updated :: fates) (b' :: bs') e'
  | fail {e e' : Engine} {b b' : Binding} {bs bs' : List Binding} {fates : List Fate} {page : Page}
      {error : HostError} {failure : BindingFailure} :
    b.isAffectedBy changed = true → e.page.update b = (.error error, b', page) →
    failure = b'.failure (page.host.describe b'.node) error.message →
    Visits changed (capture { e with page := page } failure) bs fates bs' e' →
    Visits changed e (b :: bs) (.failed failure :: fates) (b' :: bs') e'

/-- The updates of a flush visit the bindings and count. -/
theorem flushEach_visits (changed : List String) (bs : List Binding) :
    ∀ (r : FlushReport) (e : Engine), ∃ fates,
      Visits changed e bs fates (flushEach changed bs r e).1 (flushEach changed bs r e).2.2 ∧
        (flushEach changed bs r e).2.1 = ⟨r.paths, r.updated + fates.count .updated,
          r.skipped + fates.count .skipped, r.failed + (Fate.failures fates).length⟩ := by
  induction bs with
  | nil => exact fun r e => ⟨[], .done e, rfl⟩
  | cons b bs ih =>
    intro r e
    rw [flushEach]
    cases haffected : b.isAffectedBy changed with
    | false =>
      obtain ⟨fates, hvisits, hreport⟩ := ih { r with skipped := r.skipped + 1 } e
      refine ⟨.skipped :: fates, .skip haffected hvisits, hreport.trans ?_⟩
      simp [Nat.add_assoc, Nat.add_comm 1]
    | true =>
      cases hupdate : e.page.update b with
      | mk outcome rest =>
        obtain ⟨b', page⟩ := rest
        cases outcome with
        | ok _ =>
          obtain ⟨fates, hvisits, hreport⟩ :=
            ih { r with updated := r.updated + 1 } { e with page := page }
          refine ⟨.updated :: fates, ?_, ?_⟩
          · simp only [if_true, Engine.update, hupdate]
            exact .update haffected hupdate hvisits
          · simp only [if_true, Engine.update, hupdate]
            refine hreport.trans ?_
            simp [Nat.add_assoc, Nat.add_comm 1]
        | error error =>
          let failure := b'.failure (page.host.describe b'.node) error.message
          obtain ⟨fates, hvisits, hreport⟩ :=
            ih { r with failed := r.failed + 1 } (capture { e with page := page } failure)
          refine ⟨.failed failure :: fates, ?_, ?_⟩
          · simp only [if_true, Engine.update, hupdate]
            exact .fail haffected hupdate rfl hvisits
          · simp only [if_true, Engine.update, hupdate]
            refine hreport.trans ?_
            simp [Nat.add_assoc, Nat.add_comm 1]

/-- What happened between the beginning and the end of the visits: the failures were told. -/
theorem Visits.told {fates : List Fate} (h : Visits changed e bs fates bs' e') :
    e.Told e' (Fate.failures fates) := by
  induction h with
  | done e => exact .refl e
  | skip _ _ ih => exact ih
  | @update e _ b _ _ _ _ _ _ hupdate _ ih =>
    have hreported := e.page.update_reported b
    rw [hupdate] at hreported
    exact (told_of_reported hreported).trans ih
  | @fail e _ b _ _ _ _ _ _ failure _ hupdate _ _ ih =>
    have hreported := e.page.update_reported b
    rw [hupdate] at hreported
    exact ((told_of_reported hreported).trans (capture_told _ failure)).trans ih

theorem isAffectedBy_eq_false_iff : b.isAffectedBy changed = false ↔ ∃ reads, b.reads = some reads ∧
    ∀ read ∈ reads, ∀ path ∈ changed, pathsOverlap read path = false := by
  rw [Binding.isAffectedBy]
  cases b.reads with
  | none => simp
  | some reads => simp

/-- Each binding has its fate, and those that were skipped are told by what they read. -/
theorem Visits.skipped_iff {fates : List Fate} (h : Visits changed e bs fates bs' e') :
    List.Forall₂ (fun b fate => fate = .skipped ↔ ∃ reads, b.reads = some reads ∧
      ∀ read ∈ reads, ∀ path ∈ changed, pathsOverlap read path = false) bs fates := by
  simp only [← isAffectedBy_eq_false_iff]
  induction h with
  | done => exact .nil
  | skip haffected _ ih => exact .cons (by simp [haffected]) ih
  | update haffected _ _ ih | fail haffected _ _ _ ih => exact .cons (by simp [haffected]) ih

/-! ## Flushes -/

theorem flush_paths (e : Engine) : e.flush.1.paths = e.scheduler.pending := by
  rw [flush]
  dsimp only
  split
  · rfl
  · obtain ⟨fates, -, hreport⟩ := flushEach_visits e.scheduler.takePending.1 e.bindings
      ⟨e.scheduler.takePending.1, 0, 0, 0⟩ e.drained
    exact congrArg FlushReport.paths hreport

/-- A flush with something to do visits the bindings, counts, and leaves a line in the log. -/
theorem flush_visits (h : e.scheduler.pending ≠ []) : ∃ fates last,
    Visits e.scheduler.pending e.drained e.bindings fates e.flush.2.bindings last ∧
      e.flush.1 = ⟨e.scheduler.pending, fates.count .updated, fates.count .skipped,
        (Fate.failures fates).length⟩ ∧
      e.flush.2 = { last with bindings := e.flush.2.bindings }.withState
        (last.state.log .debug e.flush.1.describe) := by
  obtain ⟨fates, hvisits, hreport⟩ := flushEach_visits e.scheduler.pending e.bindings
    ⟨e.scheduler.pending, 0, 0, 0⟩ e.drained
  have hflush : e.flush =
      let r := flushEach e.scheduler.pending e.bindings ⟨e.scheduler.pending, 0, 0, 0⟩ e.drained
      (r.2.1, { r.2.2 with bindings := r.1 }.withState (r.2.2.state.log .debug r.2.1.describe)) := by
    have hpending : e.scheduler.takePending.1 ≠ [] := h
    rw [flush]
    dsimp only
    rw [if_neg hpending]
    rfl
  rw [hflush]
  refine ⟨fates, _, hvisits, hreport.trans ?_, rfl⟩
  simp

/-! ## The next flush -/

theorem writeAlong_progressed (s : State) (keys : List Key) {α : Type}
    (write : ViewId → Store → Written α) : s.Progressed (s.writeAlong keys write) := by
  rw [Tracked.writeAlong]
  have hread : ∀ store, s.Progressed { s with store := store } := fun store =>
    ((Tracked.Notified.refl s).withStore store).progressed
  split
  · exact hread _
  · exact (hread _).trans (Tracked.write_notified _ _).progressed

theorem setState_progressed (e : Engine) (update : Datum) :
    e.state.Progressed (e.setState update).state := by
  have hplaced : e.state.Progressed (e.state.placed update) :=
    ((Tracked.Notified.refl e.state).withStore _).progressed
  have hfields : ∀ (entries : List (String × Value)) (s : State),
      s.Progressed (entries.foldl setField s) := by
    intro entries
    induction entries with
    | nil => exact .refl
    | cons entry entries ih =>
      exact fun s => (Tracked.write_notified s _).progressed.trans (ih (setField s entry))
  rw [setState]
  dsimp only
  split
  · exact hplaced.trans (hfields _ _)
  · exact hplaced.trans ⟨_, _, Tracked.noted_record _ _ _ _⟩

/-- A step of a run that is no flush keeps what is pending. -/
theorem move_progressed (e : Engine) {step : Move} (hflush : step ≠ .flush) :
    e.state.Progressed (e.move step).state := by
  cases step with
  | read keys => exact ((Tracked.Notified.refl e.state).withStore _).progressed
  | place datum => exact ((Tracked.Notified.refl e.state).withStore _).progressed
  | write keys write => exact writeAlong_progressed _ _ _
  | setPath keys path value => exact writeAlong_progressed _ _ _
  | setState update => exact setState_progressed e update
  | dispatch node event =>
    rw [move_dispatch]
    exact Tracked.perform_progressed _ _ _
  | flush => exact absurd rfl hflush

theorem run_progressed (moves : List Move) : ∀ e : Engine, .flush ∉ moves →
    e.state.Progressed (e.run moves).state := by
  induction moves with
  | nil => exact fun e _ => .refl _
  | cons step moves ih =>
    intro e hflush
    rw [List.mem_cons, not_or] at hflush
    exact (move_progressed e (Ne.symm hflush.1)).trans (ih _ hflush.2)

/-- A flush with something to do visits each binding once and in order, also after failures. It
    skips the bindings that declare what they read, if nothing of it changed, and its report counts
    what became of all of them. Each failure is recorded once, and told once to every handler, in
    order. The paths that are notified meanwhile are pending afterwards, and the next flush, after
    any steps of a run, has them among its own. Which texts are shown does not enter into it: an
    update that would write out an array which contains itself counts as one that shows nothing. -/
theorem flush_accounts (e : Engine) (hpending : e.scheduler.pending ≠ []) :
    let changed := e.scheduler.pending
    let report := e.flush.1
    let e' := e.flush.2
    (∃ fates last, Visits changed e.drained e.bindings fates e'.bindings last ∧
      e' = { last with bindings := e'.bindings }.withState
        (last.state.log .debug report.describe) ∧
      List.Forall₂ (fun b fate => fate = .skipped ↔ ∃ reads, b.reads = some reads ∧
        ∀ read ∈ reads, ∀ path ∈ changed, pathsOverlap read path = false) e.bindings fates ∧
      report = ⟨changed, fates.count .updated, fates.count .skipped,
        (Fate.failures fates).length⟩ ∧
      report.updated + report.skipped + report.failed = e.bindings.length ∧
      e'.handlers = e.handlers ∧
      e'.calls = e.calls ++
        (Fate.failures fates).flatMap (ErrorHandlers.calls e.handlers.entries) ∧
      ∃ problems notified, e.state.journal.Grew e'.state.journal problems notified ∧
        (problems.filter fun d => d.kind = .bindingUpdateError) =
          (Fate.failures fates).map BindingFailure.problem ∧
        e'.scheduler.pending = notified.eraseDups ∧
        ∀ moves, .flush ∉ moves → notified ⊆ (e'.run moves).flush.1.paths) ∧
    ∀ steps, e.handlers = .run steps → e.handlers.entries = ErrorHandlers.standing 0 steps := by
  dsimp only
  refine ⟨?_, fun steps hsteps => hsteps ▸ ErrorHandlers.entries_run steps⟩
  obtain ⟨fates, last, hvisits, hreport, hflush⟩ := flush_visits hpending
  have hfates := hvisits.skipped_iff
  have htold := hvisits.told
  obtain ⟨problems, notified, hnoted, hproblems⟩ := htold.noted
  have hline : last.state.Noted (last.state.log .debug e.flush.1.describe) [] [] :=
    Tracked.noted_log _ (by decide) rfl
  have hstate : e.flush.2.state = last.state.log .debug e.flush.1.describe :=
    congrArg Engine.state hflush
  have hlogged : e.drained.state.Noted e.flush.2.state problems notified := by
    rw [hstate, ← List.append_nil problems, ← List.append_nil notified]
    exact hnoted.trans hline
  have hafter : e.flush.2.scheduler.pending = notified.eraseDups := hlogged.pending rfl
  refine ⟨fates, last, hvisits, hflush, hfates, hreport, ?_, (congrArg handlers hflush).trans
    htold.handlers, (congrArg calls hflush).trans htold.calls, problems, notified,
    hlogged.journal, hproblems, hafter, fun moves hmoves path hpath => ?_⟩
  · rw [hreport, hfates.length_eq, ← Fate.count_add_count_add_length]
  · rw [flush_paths]
    refine (run_progressed moves _ hmoves).pending ?_
    have hmem : path ∈ e.flush.2.scheduler.pending := by rwa [hafter, List.mem_eraseDups]
    exact hmem

/-- An engine with two texts, of which the first one has been destroyed, and a handler of failures
    that writes to the state. -/
def noticeEngine : Engine :=
  let notices := zonePage [("span", "vx-bind", "notice"), ("span", "vx-bind", "notice")]
  let mounted := (create notices (.object [("notice", .text "hello")]) .standard).mount .zones
  let handled := (mounted.onError "bell" [.set "bell" (.bool true)]).2
  (handled.withHost ((handled.page.host.destroy ⟨2, 0⟩).toOption.getD handled.page.host)).setState
    (.object [("notice", .text "bye")])

/-- The second text is updated, the handler is called once, and what it writes is left for the next
    flush. -/
theorem notice_flush_accounts :
    let e := noticeEngine
    e.scheduler.pending ≠ [] ∧ e.flush.1 = ⟨["notice"], 1, 0, 1⟩ ∧
      (∃ failure, e.flush.2.calls = [⟨"bell", failure⟩]) ∧ e.flush.2.flush.1.paths = ["bell"] := by
  have hpending : noticeEngine.scheduler.pending ≠ [] := by decide +kernel
  have hreport : noticeEngine.flush.1 = ⟨["notice"], 1, 0, 1⟩ := by decide +kernel
  have hafter : noticeEngine.flush.2.scheduler.pending = ["bell"] := by decide +kernel
  obtain ⟨⟨fates, last, -, -, -, hcounts, -, -, hcalls, -⟩, -⟩ := flush_accounts _ hpending
  refine ⟨hpending, hreport, ?_, (flush_paths _).trans hafter⟩
  have hfailed := congrArg FlushReport.failed (hreport.symm.trans hcounts)
  obtain ⟨failure, hfailure⟩ := List.length_eq_one_iff.1 hfailed.symm
  refine ⟨failure, hcalls.trans ?_⟩
  have hlabels : noticeEngine.handlers.entries.map ErrorHandler.label = ["bell"] := by
    decide +kernel
  have hnone : noticeEngine.calls = [] := by decide +kernel
  obtain ⟨handler, hhandler, hlabel⟩ := List.map_eq_singleton_iff.1 hlabels
  rw [hnone, hfailure, hhandler, List.flatMap_singleton, ErrorHandlers.calls, List.map_singleton,
    hlabel, List.nil_append]

end Engine

end ReactiveTemplate
