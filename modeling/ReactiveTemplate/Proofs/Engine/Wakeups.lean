import ReactiveTemplate.Proofs.Engine.Visits

/-!
# Requests for frames

The first change after the pending paths were removed asks the host for a frame, by the requester
that is installed at that time. What the host does later in the same window, installing a requester
included, asks for nothing more: changes that came before the first requester wait until the host
flushes on its own.

* `Scheduler.Turn`, `Scheduler.Opened`: what a call can do to a scheduler, and what it knows of the
  window it is in.
* `Page.register_reported`, `Engine.mount_silent`: mounting notifies nothing.
* `HostCall`, `Engine.serve`: the calls of a host; `Engine.serve_turn`: each of them is one turn.
* `Engine.frame_asked_at_first_change`: where the request of a window was made, and to whom.
-/

namespace ReactiveTemplate

/-! ## Windows -/

namespace Scheduler

variable {ρ : Type} {s₀ s s' : Scheduler ρ}

/-- What a call can do: remove the pending paths, install a requester, or notify some paths. -/
inductive Turn (s : Scheduler ρ) : Scheduler ρ → Prop
  | emptied : Turn s s.clear
  | installed (requester : ρ) : Turn s (s.setRequester requester)
  | notified (paths : List String) : Turn s (paths.foldl (fun s path => (s.notify path).1) s)

/-- A flush is scheduled exactly when something is pending. -/
def Alert (s : Scheduler ρ) : Prop := s.scheduled = true ↔ s.pending ≠ []

/-- A window that began at a scheduler without pending paths: a frame was requested once in it, and
    the requester called that was installed when it began. -/
structure Opened (s₀ s : Scheduler ρ) : Prop where
  before : s₀.pending = []
  pending : s.pending ≠ []
  scheduled : s.scheduled = true
  frames : s.framesRequested = s₀.framesRequested + 1
  calls : s.calls = s₀.calls + if s₀.requester.isSome then 1 else 0

theorem calls_notify (s : Scheduler ρ) (path : String) :
    (s.notify path).1.calls =
      s.calls + if s.scheduled then 0 else if s.requester.isSome then 1 else 0 := by
  rw [notify]
  split
  · rfl
  · cases s.requester <;> rfl

theorem Alert.turn (h : s.Alert) (ht : s.Turn s') : s'.Alert := by
  cases ht with
  | emptied => simp [Alert, clear, takePending]
  | installed requester => exact h
  | notified paths =>
    induction paths generalizing s with
    | nil => exact h
    | cons path paths ih =>
      exact ih ⟨fun _ => s.pending_notify_ne_nil path, fun _ => s.scheduled_notify path⟩

/-- A further notification changes nothing about the requests of a window. -/
theorem Opened.notify (h : Opened s₀ s) (path : String) : Opened s₀ (s.notify path).1 where
  before := h.before
  pending := s.pending_notify_ne_nil path
  scheduled := s.scheduled_notify path
  frames := by rw [framesRequested_notify, h.scheduled, h.frames, if_pos rfl, Nat.add_zero]
  calls := by rw [calls_notify, h.scheduled, h.calls, if_pos rfl, Nat.add_zero]

theorem Opened.notifyAll (paths : List String) :
    ∀ {s : Scheduler ρ}, Opened s₀ s →
      Opened s₀ (paths.foldl (fun s path => (s.notify path).1) s) := by
  induction paths with
  | nil => exact fun h => h
  | cons path paths ih => exact fun h => ih (h.notify path)

/-- A window goes on until the pending paths are removed. -/
theorem Opened.turn (h : Opened s₀ s) (ht : s.Turn s') (hpending : s'.pending ≠ []) :
    Opened s₀ s' := by
  cases ht with
  | emptied => exact absurd rfl hpending
  | installed requester => exact ⟨h.before, h.pending, h.scheduled, h.frames, h.calls⟩
  | notified paths => exact h.notifyAll paths

/-- A window begins with the turn that makes something pending. -/
theorem Alert.opens (h : s.Alert) (hnone : s.pending = []) (ht : s.Turn s')
    (hpending : s'.pending ≠ []) : Opened s s' := by
  have hidle : s.scheduled = false := by
    rw [← Bool.not_eq_true]
    exact fun hscheduled => h.1 hscheduled hnone
  cases ht with
  | emptied => exact absurd rfl hpending
  | installed requester => exact absurd hnone hpending
  | notified paths =>
    cases paths with
    | nil => exact absurd hnone hpending
    | cons path paths =>
      refine Opened.notifyAll paths ⟨hnone, s.pending_notify_ne_nil path, s.scheduled_notify path,
        ?_, ?_⟩
      · rw [framesRequested_notify, hidle, if_neg Bool.false_ne_true]
      · rw [calls_notify, hidle, if_neg Bool.false_ne_true]

end Scheduler

/-! ## Registering notifies nothing -/

namespace Page

variable {page : Page}

theorem recordSyntax_reported (page : Page) {kind : DiagnosticKind} (hkind : kind ≠ .bindingUpdateError)
    (source : String) (error : SyntaxError) :
    page.Reported { page with state := page.state.recordSyntax kind source error } := by
  refine ⟨[.ofSyntaxError kind source error], ⟨rfl, Journal.grew_record _ _⟩, fun d hd => ?_⟩
  rw [List.mem_singleton.1 hd]
  exact hkind

theorem registerPresence_reported (page : Page) (node : NodeId) (text : String) :
    page.Reported (page.registerPresence node text).2 := by
  have hcompiled := page.compile_reported text .state
  rw [registerPresence]
  generalize page.compile text .state = compiled at hcompiled
  obtain ⟨expression, page₁⟩ := compiled
  dsimp only at hcompiled ⊢
  generalize page₁.host.createPlaceholder _ = created
  obtain ⟨placeholder, host⟩ := created
  have hvalue := (hcompiled.withHost host).trans (evaluate_reported _ expression page₁.state.scope)
  dsimp only
  split
  · exact hvalue
  · split <;> next heq => exact (congrArg Prod.snd heq).symm ▸ hvalue.withHost _

theorem elementReads_reported (kind : DirectiveKind) (item : String) (found : List String × Page)
    (element : NodeId) : found.2.Reported (elementReads kind item found element).2 := by
  rw [elementReads]
  dsimp only
  split
  · exact .refl found.2
  · exact found.2.compile_reported _ _

theorem templateReads_reported (page : Page) (item : String) (template : NodeId) :
    page.Reported (page.templateReads item template).2.2 := by
  have helements : ∀ (kind : DirectiveKind) (elements : List NodeId) (found : List String × Page),
      found.2.Reported (elements.foldl (elementReads kind item) found).2 := by
    intro kind elements
    induction elements with
    | nil => exact fun found => .refl found.2
    | cons element elements ih =>
      exact fun found => (elementReads_reported kind item found element).trans (ih _)
  have hkeeps : ∀ found : List String × Page, page.Reported found.2 →
      page.Reported (untilFailure (kindReads item template) templateKinds found).2.2 := by
    refine untilFailure_keeps fun kind _ found h => h.trans ?_
    rw [kindReads]
    split
    · exact .refl found.2
    · exact helements kind _ found
  exact hkeeps ([], page) (.refl page)

theorem registerRepetition_reported (page : Page) (node : NodeId) (text : String) :
    page.Reported (page.registerRepetition node text).2 := by
  cases hparse : parseForClause (Text.trim text) with
  | error e =>
    rw [registerRepetition_malformed hparse]
    exact page.recordSyntax_reported (by decide) _ _
  | ok clause =>
    cases hclone : page.host.cloneNode node with
    | mk cloned t₁ =>
      cases cloned with
      | error e =>
        rw [registerRepetition_uncopied hparse hclone]
        exact (Reported.refl page).withHost t₁
      | ok template =>
        cases hcreate : t₁.createPlaceholder
            (({ page with host := t₁ } : Page).repetitionLabel clause) with
        | mk placeholder t₂ =>
          cases hreplace : t₂.replace node placeholder with
          | mk replaced t₃ =>
            cases replaced with
            | error e =>
              rw [registerRepetition_failed hparse hclone hcreate hreplace]
              exact (Reported.refl page).withHost t₃
            | ok _ =>
              have hreads := templateReads_reported { page with host := t₃ } clause.item template
              cases hfound : templateReads { page with host := t₃ } clause.item template with
              | mk outcome found =>
                rw [hfound] at hreads
                cases outcome with
                | error e =>
                  rw [registerRepetition_unread hparse hclone hcreate hreplace hfound]
                  exact hreads
                | ok _ =>
                  rw [registerRepetition_made hparse hclone hcreate hreplace hfound]
                  exact hreads

theorem registerModel_reported (page : Page) (node : NodeId) (text : String) :
    page.Reported (page.registerModel node text).2 := by
  have hcompiled := page.compile_reported text .state
  rw [registerModel]
  dsimp only
  split
  · exact hcompiled
  · split
    · exact hcompiled
    · exact hcompiled.withHost _
  · exact hcompiled.trans (record_reported _ (by decide) _ _)

theorem registerEvents_reported (page : Page) (node : NodeId) (text : String) :
    page.Reported (page.registerEvents node text).2 := by
  have hentries : ∀ found : List Nat × Page, page.Reported found.2 →
      page.Reported (untilFailure (registerEntry node) (eventEntries text) found).2.2 := by
    refine untilFailure_keeps fun entry _ found h => h.trans ?_
    rw [registerEntry]
    split
    · exact record_reported _ (by decide) _ _
    · split
      · exact recordSyntax_reported _ (by decide) _ _
      · split
        · exact .refl found.2
        · exact (Reported.refl found.2).withHost _
  replace hentries := hentries ([], page) (.refl page)
  rw [registerEvents]
  generalize untilFailure (registerEntry node) (eventEntries text) ([], page) = outcome at hentries
  obtain ⟨_ | _, _ | ⟨listener, listeners⟩, page'⟩ := outcome <;> exact hentries

/-- Registering a directive records no failure of a binding, and notifies nothing. -/
theorem register_reported (page : Page) (id : Nat) (kind : DirectiveKind) (node : NodeId)
    (text : String) : page.Reported (page.register id kind node text).2 := by
  show page.Reported (page.draft kind node text).2
  cases kind with
  | bind | visibility => exact page.compile_reported text .state
  | presence => exact page.registerPresence_reported node text
  | repetition => exact page.registerRepetition_reported node text
  | model => exact page.registerModel_reported node text
  | events => exact page.registerEvents_reported node text

end Page

namespace Engine

variable {e e' e'' : Engine}

/-! ## Steps without changes -/

/-- Nothing was notified between two engines, and their error handlers are the same. -/
structure Silent (e e' : Engine) : Prop where
  scheduler : e'.scheduler = e.scheduler
  handlers : e'.handlers = e.handlers

theorem Silent.refl (e : Engine) : e.Silent e := ⟨rfl, rfl⟩

theorem Silent.trans (h : e.Silent e') (h' : e'.Silent e'') : e.Silent e'' :=
  ⟨h'.scheduler.trans h.scheduler, h'.handlers.trans h.handlers⟩

theorem silent_of_reported {page : Page} (h : e.page.Reported page) :
    e.Silent { e with page := page } := by
  obtain ⟨problems, hnoted, -⟩ := h
  exact ⟨hnoted.scheduler, rfl⟩

/-- A failure of which no handler is told changes nothing of the state. -/
theorem capture_silent (hnone : e.handlers.entries = []) (failure : BindingFailure) :
    e.Silent (e.capture failure) := by
  rw [capture, hnone]
  exact ⟨rfl, rfl⟩

theorem update_silent (hnone : e.handlers.entries = []) (b : Binding) :
    e.Silent (e.update b).2.2 := by
  have hreported := silent_of_reported (e.page.update_reported b)
  rw [update]
  generalize e.page.update b = r at hreported
  obtain ⟨error | _, b', page'⟩ := r
  · have hupdated : ({ e with page := page' } : Engine).handlers.entries = [] := hnone
    exact hreported.trans (capture_silent hupdated
      (b'.failure (page'.host.describe b'.node) error.message))
  · exact hreported

theorem updateAll_silent (bs : List Binding) :
    ∀ {e : Engine}, e.handlers.entries = [] → e.Silent (updateAll bs e).2 := by
  induction bs with
  | nil => exact fun _ => .refl _
  | cons b bs ih =>
    intro e hnone
    have hupdate := update_silent hnone b
    exact hupdate.trans (ih (hupdate.handlers.symm ▸ hnone))

theorem flushEach_silent (changed : List String) (bs : List Binding) :
    ∀ {r : FlushReport} {e : Engine}, e.handlers.entries = [] →
      e.Silent (flushEach changed bs r e).2.2 := by
  induction bs with
  | nil => exact fun _ => .refl _
  | cons b bs ih =>
    intro r e hnone
    rw [flushEach]
    split
    · have hupdate := update_silent hnone b
      exact hupdate.trans (ih (hupdate.handlers.symm ▸ hnone))
    · exact ih hnone

theorem scanZone_scheduler (first : Nat) (found : List Binding × Page) (zone : NodeId) :
    (Page.scanZone first found zone).2.state.scheduler = found.2.state.scheduler := by
  obtain ⟨bindings, page⟩ := found
  have hdeclarations : ∀ (ds : List Declaration) (found : List Binding × Page),
      (ds.foldl (Page.registerDeclaration first) found).2.state.scheduler =
        found.2.state.scheduler := by
    intro ds
    induction ds with
    | nil => exact fun _ => rfl
    | cons d ds ih =>
      intro found
      rw [List.foldl_cons, ih]
      obtain ⟨problems, hnoted, -⟩ :=
        found.2.register_reported (first + found.1.length) d.kind d.node d.text
      rw [Page.registerDeclaration]
      generalize found.2.register (first + found.1.length) d.kind d.node d.text = r at hnoted
      obtain ⟨_ | _ | _, page'⟩ := r <;> exact hnoted.scheduler
  rw [Page.scanZone]
  dsimp only
  split
  · rfl
  · exact hdeclarations _ _

/-- Mounting notifies nothing. -/
theorem mount_silent (hnone : e.handlers.entries = []) (target : MountTarget) :
    e.Silent (e.mount target) := by
  have hzones : ∀ (zones : List NodeId) (e : Engine), e.handlers.entries = [] →
      e.Silent (e.mountZones zones) := by
    intro zones e hnone
    have hscan : ∀ (zones : List NodeId) (found : List Binding × Page),
        (zones.foldl (Page.scanZone e.made) found).2.state.scheduler =
          found.2.state.scheduler := by
      intro zones
      induction zones with
      | nil => exact fun _ => rfl
      | cons zone zones ih =>
        intro found
        rw [List.foldl_cons, ih, scanZone_scheduler]
    have hscanned := hscan zones ([], e.page)
    rw [mountZones]
    generalize zones.foldl (Page.scanZone e.made) ([], e.page) = found at hscanned
    obtain ⟨made, page⟩ := found
    have hupdated := updateAll_silent made
      (e := { e with page := page, made := e.made + made.length }) hnone
    exact ⟨hupdated.scheduler.trans hscanned, hupdated.handlers⟩
  rw [mount]
  split
  · exact ⟨rfl, rfl⟩
  · obtain ⟨hscheduler, hhandlers⟩ :=
      hzones [] (e.withState (e.state.log .warn "mount found no zones")) hnone
    exact ⟨hscheduler, hhandlers⟩
  · exact hzones _ e hnone

theorem unmountBinding_silent (hnone : e.handlers.entries = []) (b : Binding) :
    e.Silent (e.unmountBinding b) := by
  rw [unmountBinding]
  generalize b.cleanup e.page.host = cleaned
  obtain ⟨_ | error, host⟩ := cleaned
  · exact ⟨rfl, rfl⟩
  · have hhost : (e.withHost host).handlers.entries = [] := hnone
    obtain ⟨hscheduler, hhandlers⟩ := capture_silent hhost
      (b.failure (e.page.host.describe b.node) ("cleanup failed: " ++ error.message))
    exact ⟨hscheduler, hhandlers⟩

theorem unmountAll_silent (bs : List Binding) :
    ∀ {e : Engine}, e.handlers.entries = [] → e.Silent (bs.foldl unmountBinding e) := by
  induction bs with
  | nil => exact fun _ => .refl _
  | cons b bs ih =>
    intro e hnone
    have hcleaned := unmountBinding_silent hnone b
    exact hcleaned.trans (ih (hcleaned.handlers.symm ▸ hnone))

end Engine

/-! ## Calls of the host -/

/-- A call that the host makes of an engine. -/
inductive HostCall where
  | mount (target : MountTarget)
  | unmount
  | install (requester : Script)
  | move (step : Move)

namespace Engine

variable {e : Engine}

/-- Does what the host asks for. -/
def serve (e : Engine) : HostCall → Engine
  | .mount target => e.mount target
  | .unmount => e.unmount
  | .install requester => e.setFrameRequester requester
  | .move step => e.move step

/-- Does what the host asks for, in order. -/
def serveAll (e : Engine) (calls : List HostCall) : Engine := calls.foldl serve e

theorem serveAll_append_singleton (e : Engine) (calls : List HostCall) (call : HostCall) :
    e.serveAll (calls ++ [call]) = (e.serveAll calls).serve call := by
  rw [serveAll, List.foldl_append]
  rfl

theorem move_handlers (e : Engine) {step : Move} (hflush : step ≠ .flush) :
    (e.move step).handlers = e.handlers := by
  cases step with
  | read | place | write | setPath => rfl
  | setState update =>
    rw [move, setState]
    dsimp only
    split <;> rfl
  | dispatch node event =>
    rw [move_dispatch]
    rfl
  | flush => exact absurd rfl hflush

/-- Without error handlers, each call is one turn of the scheduler. -/
theorem serve_turn (hnone : e.handlers.entries = []) (call : HostCall) :
    e.scheduler.Turn (e.serve call).scheduler ∧ (e.serve call).handlers = e.handlers := by
  cases call with
  | mount target =>
    obtain ⟨hscheduler, hhandlers⟩ := mount_silent hnone target
    rw [serve, hscheduler]
    exact ⟨.notified [], hhandlers⟩
  | unmount =>
    obtain ⟨hscheduler, hhandlers⟩ := unmountAll_silent e.bindings hnone
    refine ⟨?_, hhandlers⟩
    show e.scheduler.Turn (e.bindings.foldl unmountBinding e).scheduler.clear
    rw [hscheduler]
    exact .emptied
  | install requester => exact ⟨.installed requester, rfl⟩
  | move step =>
    by_cases hflush : step = .flush
    · subst hflush
      have hdrained : e.drained.handlers.entries = [] := hnone
      show e.scheduler.Turn e.flush.2.scheduler ∧ e.flush.2.handlers = e.handlers
      rw [flush]
      dsimp only
      split
      · exact ⟨.emptied, rfl⟩
      · obtain ⟨hscheduler, hhandlers⟩ := flushEach_silent e.scheduler.pending e.bindings
          (r := ⟨e.scheduler.pending, 0, 0, 0⟩) hdrained
        refine ⟨?_, hhandlers⟩
        show e.scheduler.Turn (flushEach _ _ _ e.drained).2.2.scheduler
        exact hscheduler.symm ▸ .emptied
    · obtain ⟨problems, changes, hnoted⟩ := move_progressed e hflush
      refine ⟨?_, move_handlers e hflush⟩
      have hscheduler : (e.serve (.move step)).scheduler = _ := hnoted.scheduler
      rw [hscheduler]
      exact .notified changes

/-! ## The request of a window -/

theorem serveAll_alert (host : HostTree Reaction) (initial : Datum) (config : Config)
    (calls : List HostCall) :
    ((create host initial config).serveAll calls).handlers.entries = [] ∧
      ((create host initial config).serveAll calls).scheduler.Alert := by
  induction calls using List.reverseRecOn with
  | nil =>
    refine ⟨rfl, ?_⟩
    have hscheduler : (create host initial config).scheduler = .empty := rfl
    rw [serveAll, List.foldl_nil, hscheduler]
    simp [Scheduler.Alert, Scheduler.empty]
  | append_singleton calls call ih =>
    obtain ⟨hturn, hhandlers⟩ := serve_turn ih.1 call
    rw [serveAll_append_singleton, hhandlers]
    exact ⟨ih.1, ih.2.turn hturn⟩

/-- Whatever is pending came since a call that found nothing pending, and from then on something
    always was. That call asked for one frame, and it called the requester that was installed before
    it; without one, none has been called for what is pending, also if one was installed since. -/
theorem frame_asked_at_first_change (host : HostTree Reaction) (initial : Datum) (config : Config)
    (calls : List HostCall)
    (hpending : ((create host initial config).serveAll calls).scheduler.pending ≠ []) :
    ∃ before first rest, calls = before ++ first :: rest ∧
      ((create host initial config).serveAll before).scheduler.Opened
        ((create host initial config).serveAll calls).scheduler ∧
      ∀ more, more <+: rest →
        ((create host initial config).serveAll (before ++ first :: more)).scheduler.pending ≠ [] := by
  induction calls using List.reverseRecOn with
  | nil => exact absurd rfl hpending
  | append_singleton calls call ih =>
    obtain ⟨hnone, halert⟩ := serveAll_alert host initial config calls
    obtain ⟨hturn, -⟩ := serve_turn hnone call
    rw [← serveAll_append_singleton] at hturn
    by_cases hidle : ((create host initial config).serveAll calls).scheduler.pending = []
    · refine ⟨calls, call, [], rfl, halert.opens hidle hturn hpending, fun more hmore => ?_⟩
      rw [List.prefix_nil.1 hmore]
      exact hpending
    · obtain ⟨before, first, rest, rfl, hopened, hsince⟩ := ih hidle
      refine ⟨before, first, rest ++ [call], List.append_assoc .., hopened.turn hturn hpending,
        fun more hmore => ?_⟩
      rcases List.prefix_concat_iff.1 hmore with heq | hmore
      · rw [heq, ← List.cons_append, ← List.append_assoc]
        exact hpending
      · exact hsince more hmore

/-- An engine with a count. -/
def countEngine : Engine := create .empty (.object [("count", .number 0)]) .standard

/-- The count changes, and only then the host installs a requester. -/
def lateCalls : List HostCall :=
  [.move (.setState (.object [("count", .number 1)])), .install [], .mount .zones,
    .move (.setState (.object [("count", .number 2)]))]

/-- The late requester is never called, although there are changes to flush. -/
theorem late_requester_is_not_called :
    let e := countEngine.serveAll lateCalls
    e.scheduler.pending = ["count"] ∧ e.scheduler.requester.isSome ∧ e.scheduler.calls = 0 ∧
      ∃ before first rest, lateCalls = before ++ first :: rest ∧
        (countEngine.serveAll before).scheduler.Opened e.scheduler := by
  have hpending : (countEngine.serveAll lateCalls).scheduler.pending = ["count"] := by
    decide +kernel
  obtain ⟨before, first, rest, hcalls, hopened, -⟩ := frame_asked_at_first_change .empty
    (.object [("count", .number 0)]) .standard lateCalls (hpending.trans_ne (List.cons_ne_nil _ _))
  exact ⟨hpending, by decide +kernel, by decide +kernel, before, first, rest, hcalls, hopened⟩

end Engine

end ReactiveTemplate
