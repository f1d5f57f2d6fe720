import ReactiveTemplate.Proofs.Engine.Currency
import ReactiveTemplate.Proofs.Engine.Mounting
import ReactiveTemplate.Proofs.State.Reactions

/-!
# Runs of an engine

A mounted engine under reads and writes of its host, events and flushes. After every step each
binding shows the state, or a pending path affects it, so after a flush all of them show it.

* `Move`, `Engine.move`: the steps of a run.
* `Engine.MoveTidy`, `Engine.RunTidy`: the states that writes may leave behind.
* `Engine.Tracks`: the invariant of runs; `Engine.Tracks.move` keeps it.
* `Engine.flush_swept`, `Engine.Flushed`: what a flush does.
* `Engine.tracks_start`: a created and mounted engine begins such a run.
-/

namespace ReactiveTemplate

/-- A step of a run. Steps along views start at the root. -/
inductive Move where
  /-- Reads along views. -/
  | read (keys : List Key)
  /-- Makes a value of a datum. -/
  | place (datum : Datum)
  /-- Writes through the view that lies along some steps. -/
  | write (keys : List Key) (write : ViewWrite)
  /-- Writes a value at a path below the view that lies along some steps. -/
  | setPath (keys : List Key) (path : String) (value : Value)
  /-- Writes the fields of an object into the state. -/
  | setState (update : Datum)
  /-- Delivers an event to a node. -/
  | dispatch (node : NodeId) (event : HostEvent)
  | flush

/-- Does a write through a view. One that does not fit the container changes nothing. -/
def ViewWrite.through (write : ViewWrite) (id : ViewId) (store : Store) : Written Unit :=
  (write.apply store id).getD ⟨store, (), none⟩

namespace Tracked

/-- A write through the view that lies along some steps, if there is one. -/
def writeAlong {α : Type} (s : State) (keys : List Key) (write : ViewId → Store → Written α) :
    State :=
  match s.store.readAlong (.view Store.root) keys with
  | (.value _, store) => { s with store := store }
  | (.view id, store) => (Tracked.write { s with store := store } (write id)).2

end Tracked

namespace HostTree

/-- What the listeners of a node for an event do. -/
def reactionsTo {α : Type} (t : HostTree α) (node : NodeId) (event : String) : List α :=
  ((t.listenersOf node).filter fun l => l.event == event).map Listener.action

theorem Grammatical.reactionsTo {t : HostTree Reaction} (h : t.Grammatical) (node : NodeId)
    (event : String) : ∀ r ∈ t.reactionsTo node event, r.Grammatical := by
  intro r hr
  obtain ⟨l, hl, rfl⟩ := List.mem_map.1 hr
  exact h node l (List.mem_filter.1 hl).1

end HostTree

namespace Engine

/-- Does a step of a run. -/
def move (e : Engine) : Move → Engine
  | .read keys =>
    e.withState { e.state with store := (e.state.store.readAlong (.view Store.root) keys).2 }
  | .place datum => e.withState (e.state.placed datum)
  | .write keys write =>
    e.withState (e.state.writeAlong keys write.through)
  | .setPath keys path value =>
    e.withState (e.state.writeAlong keys fun id store => store.setPath id path value)
  | .setState update => e.setState update
  | .dispatch node event => (e.dispatch node event).2
  | .flush => e.flush.2

/-- Does the steps of a run in order. -/
def run (e : Engine) (moves : List Move) : Engine := moves.foldl move e

/-- An event that is delivered to a node that does not exist does nothing. -/
theorem move_dispatch (e : Engine) (node : NodeId) (event : HostEvent) :
    e.move (.dispatch node event) =
      e.withState (e.state.perform event (e.page.host.reactionsTo node event.name)) := by
  rw [move, dispatch, HostTree.dispatch, HostTree.get, HostTree.reactionsTo, HostTree.listenersOf]
  cases e.page.host.node? node <;> rfl

/-- Each write of a step uses known values and leaves a tidy state. -/
def MoveTidy (e : Engine) (step : Move) : Prop :=
  match step with
  | .read _ | .flush => True
  | .place datum => datum.Known e.state.heap
  | .write _ write =>
    (∀ value ∈ write.values, value.Known e.state.heap) ∧ (e.move step).state.Unshared ∧
      ∀ index value, write = .setItem index value → e.state.KeepsLengths (e.move step).state
  | .setPath _ _ value => value.Known e.state.heap ∧ e.state.Tidy (e.move step).state
  | .setState update =>
    update.Known e.state.heap ∧ ∀ id, (e.state.heap.place update).1 = .object id →
      (e.state.placed update).FieldsTidy ((e.state.placed update).heap.fields id).entries
  | .dispatch node event =>
    e.state.PerformTidy event (e.page.host.reactionsTo node event.name)

/-- Each write of a run uses known values and leaves a tidy state. -/
def RunTidy : Engine → List Move → Prop
  | _, [] => True
  | e, step :: rest => e.MoveTidy step ∧ RunTidy (e.move step) rest

/-- A flush updates a binding, since a pending path affects it. -/
def Stale (e : Engine) (b : Binding) : Prop :=
  e.state.scheduler.pending ≠ [] ∧ b.isAffectedBy e.state.scheduler.pending = true

/-- The invariant of runs: a binding that does not show the state is updated by the next
    flush. -/
structure Tracks (t₀ : HostTree Reaction) (e : Engine) : Prop where
  orderly : e.state.Orderly
  ready : e.page.Ready t₀ e.bindings
  asked : ∀ b ∈ e.bindings, b.AskedFor e.page.config t₀
  grammatical : e.page.host.Grammatical
  current : ∀ b ∈ e.bindings, e.page.Shows t₀ b ∨ e.Stale b

variable {t₀ : HostTree Reaction} {e : Engine} {s' : State}

/-! ## Steps that change the state -/

theorem isAffectedBy_mono {b : Binding} {changed changed' : List String} (hsub : changed ⊆ changed')
    (h : b.isAffectedBy changed = true) : b.isAffectedBy changed' = true := by
  rw [Binding.isAffectedBy] at h ⊢
  cases hreads : b.reads with
  | none => rfl
  | some reads =>
    rw [hreads] at h
    obtain ⟨read, hread, h⟩ := List.any_eq_true.1 h
    obtain ⟨n, hn, hoverlap⟩ := List.any_eq_true.1 h
    exact List.any_eq_true.2 ⟨read, hread, List.any_eq_true.2 ⟨n, hsub hn, hoverlap⟩⟩

/-- Writes leave a binding as it is unless the paths they report can affect it. -/
theorem Tracks.withState (h : e.Tracks t₀) (hs : e.state.Evolves s') :
    (e.withState s').Tracks t₀ := by
  refine ⟨hs.orderly, h.ready.carry rfl rfl h.ready.cache hs.orderly.invariant.atRest.unlocked,
    h.asked, h.grammatical, fun b hb => ?_⟩
  rcases h.current b hb with hshows | ⟨hne, haffected⟩
  · have hkept : b.isAffectedBy s'.scheduler.pending = false ∨ s'.scheduler.pending = [] →
        (e.withState s').page.Shows t₀ b := fun hfree =>
      hshows.kept (h.asked b hb) rfl rfl hs hfree
    by_cases hpending : s'.scheduler.pending = []
    · exact .inl (hkept (.inr hpending))
    · cases haffected : b.isAffectedBy s'.scheduler.pending with
      | false => exact .inl (hkept (.inl haffected))
      | true => exact .inr ⟨hpending, haffected⟩
  · refine .inr ⟨fun hnone => hne ?_, isAffectedBy_mono hs.pending haffected⟩
    exact List.subset_nil.1 (hnone ▸ hs.pending)

end Engine

namespace Tracked

variable {s : State} {keys : List Key}

/-- Reading along views adds views only, and a view read so lies along the steps. -/
theorem Orderly.readAlong (hs : s.Orderly) {read : Read} {store : Store}
    (hread : s.store.readAlong (.view Store.root) keys = (read, store)) :
    s.store.Extends store ∧ s.Evolves { s with store := store } ∧
      ∀ id, read = .view id → store.Leads store Store.root id keys := by
  have hsound := hs.invariant.sound
  obtain ⟨hextends, hsound', hleads⟩ := Store.readAlong_spec hsound hsound.rootKnown hread
  exact ⟨hextends, Evolves.extend hs hextends hsound' rfl, fun id hid =>
    (hleads id hid).again hsound (Heap.AgreeBelow.refl store.heap _)⟩

theorem writeThrough_evolves (hs : s.Orderly) {write : ViewWrite}
    (hvalues : ∀ value ∈ write.values, value.Known s.heap)
    (hunshared : (s.writeAlong keys write.through).Unshared)
    (hlengths : ∀ index value, write = .setItem index value →
      s.KeepsLengths (s.writeAlong keys write.through)) :
    s.Evolves (s.writeAlong keys write.through) := by
  rw [writeAlong] at hunshared hlengths ⊢
  cases hread : s.store.readAlong (.view Store.root) keys with
  | mk read store =>
    rw [hread] at hunshared hlengths
    obtain ⟨hextends, hevolves, hleads⟩ := hs.readAlong hread
    cases read with
    | value v => exact hevolves
    | view id =>
      let t : State := { s with store := store }
      cases hw : write.apply store id with
      | none =>
        have hquiet : (t.write (write.through id)).2 = t := by
          rw [Tracked.write, writeWith]
          simp only [t, ViewWrite.through, hw, Option.getD_none, Option.elim_none]
        dsimp only
        rw [hquiet]
        exact hevolves
      | some w =>
        have hthrough : write.through id store = w := by rw [ViewWrite.through, hw, Option.getD_some]
        have hheap : t.heap = s.heap := hextends.heap
        refine hevolves.trans (Evolves.write hevolves.orderly (hleads id rfl) hw
          (congrArg Written.store hthrough) (congrArg Written.changed hthrough) ?_
          (fun index value hset => (hlengths index value hset).of_extends hs hextends) hunshared)
        rw [hheap]
        exact hvalues

theorem setPathAlong_evolves (hs : s.Orderly) {path : String} {value : Value}
    (hvalue : value.Known s.heap)
    (h : s.Tidy (s.writeAlong keys fun id store => store.setPath id path value)) :
    s.Evolves (s.writeAlong keys fun id store => store.setPath id path value) := by
  rw [writeAlong] at h ⊢
  cases hread : s.store.readAlong (.view Store.root) keys with
  | mk read store =>
    rw [hread] at h
    obtain ⟨hextends, hevolves, hleads⟩ := hs.readAlong hread
    cases read with
    | value v => exact hevolves
    | view id =>
      have hheap : store.heap = s.heap := hextends.heap
      have htidy := h.of_extends hs hextends
      refine hevolves.trans (Evolves.setPath hevolves.orderly (hleads id rfl) ?_
        (fun _ _ => htidy.lengths) htidy.unshared)
      rw [Tracked.heap, hheap]
      exact hvalue

end Tracked

namespace Engine

variable {t₀ : HostTree Reaction} {e : Engine} {step : Move}

/-! ## Single steps -/

theorem setState_evolves (hs : e.state.Orderly) {update : Datum}
    (h : e.MoveTidy (.setState update)) :
    ∃ s', e.setState update = e.withState s' ∧ e.state.Evolves s' := by
  obtain ⟨hknown, hfields⟩ := h
  have hplaced := Tracked.Evolves.place hs hknown
  cases hplace : e.state.heap.place update with
  | mk value heap =>
    have hstate : e.state.placed update =
        { e.state with store := { e.state.store with heap := heap } } := by
      rw [Tracked.placed, hplace]
    rw [hplace, hstate] at hfields
    rw [hstate] at hplaced
    rw [setState, hplace]
    cases value with
    | object id =>
      refine ⟨_, rfl, hplaced.trans (Tracked.setFields_evolves _ hplaced.orderly ?_ (hfields id rfl))⟩
      intro entry hentry
      have hget : heap.child? (.object id) (.field entry.1) = some entry.2 :=
        findEntry_of_mem (heap.fields id).nodup hentry
      exact hplaced.orderly.invariant.atRest.closed _ _ _ hget
    | _ => exact ⟨_, rfl, hplaced.trans (Tracked.Evolves.quiet hplaced.orderly rfl rfl)⟩

/-- A step that is not a flush changes the state only, and leaves alone what no pending path
    overlaps. -/
theorem move_evolves (hs : e.state.Orderly) (hgrammatical : e.page.host.Grammatical)
    (h : e.MoveTidy step) (hflush : step ≠ .flush) :
    ∃ s', e.move step = e.withState s' ∧ e.state.Evolves s' := by
  cases step with
  | read keys => exact ⟨_, rfl, (hs.readAlong rfl).2.1⟩
  | place datum => exact ⟨_, rfl, Tracked.Evolves.place hs h⟩
  | write keys write =>
    obtain ⟨hvalues, hunshared, hlengths⟩ := h
    exact ⟨_, rfl, Tracked.writeThrough_evolves hs hvalues hunshared hlengths⟩
  | setPath keys path value => exact ⟨_, rfl, Tracked.setPathAlong_evolves hs h.1 h.2⟩
  | setState update => exact setState_evolves hs h
  | dispatch node event =>
    exact ⟨_, move_dispatch e node event,
      Tracked.perform_evolves _ hs (hgrammatical.reactionsTo node event.name) h⟩
  | flush => exact absurd rfl hflush

/-- The engine when a flush begins: nothing is pending any more. -/
def drained (e : Engine) : Engine := e.withState (e.state.withScheduler e.state.scheduler.takePending.2)

theorem flush_of_nothing (h : e.state.scheduler.pending = []) : e.flush.2 = e.drained := by
  have hpending : e.scheduler.takePending.1 = [] := h
  rw [flush]
  dsimp only
  rw [if_pos hpending]
  rfl

theorem flush_of_pending (h : e.state.scheduler.pending ≠ []) {bs' : List Binding}
    {report : FlushReport} {e' : Engine}
    (heach : flushEach e.state.scheduler.pending e.bindings ⟨e.state.scheduler.pending, 0, 0, 0⟩
      e.drained = (bs', report, e')) :
    e.flush.2 = { e' with bindings := bs' }.withState (e'.state.log .debug report.describe) := by
  have hpending : e.scheduler.takePending.1 ≠ [] := h
  have heach' : flushEach e.scheduler.takePending.1 e.drained.bindings
      ⟨e.scheduler.takePending.1, 0, 0, 0⟩ e.drained = (bs', report, e') := heach
  rw [flush]
  dsimp only
  rw [if_neg hpending]
  show (_ : Engine) = _
  rw [drained] at heach'
  simp only [Engine.scheduler] at heach' ⊢
  rw [heach']
  rfl

/-- A flush is a sweep over the bindings that pending paths affect. -/
theorem flush_swept (hr : e.page.Ready t₀ e.bindings) :
    Page.Swept t₀ e.Stale e.drained.page e.flush.2.page [] e.bindings e.flush.2.bindings := by
  have hready : e.drained.page.Ready t₀ ([] ++ e.bindings) := hr.carry rfl rfl hr.cache hr.unlocked
  by_cases hpending : e.state.scheduler.pending = []
  · rw [flush_of_nothing hpending]
    exact Page.Swept.idle hready fun b _ hstale => hstale.1 hpending
  · obtain ⟨bs', report, page', heach, hswept⟩ :=
      flushEach_spec e.state.scheduler.pending e.bindings ⟨e.state.scheduler.pending, 0, 0, 0⟩
        hready
    have hchosen : (fun b : Binding => b.isAffectedBy e.state.scheduler.pending = true) = e.Stale :=
      funext fun b => propext ⟨fun haffected => ⟨hpending, haffected⟩, And.right⟩
    rw [hchosen] at hswept
    rw [flush_of_pending hpending heach]
    exact hswept.quiet ⟨rfl, rfl, rfl, hswept.calm.cache⟩ rfl

/-- What a flush does to an engine that tracks its state: the same state with nothing pending,
    and all bindings show it. -/
structure Flushed (t₀ : HostTree Reaction) (e e' : Engine) : Prop where
  tracks : e'.Tracks t₀
  shows : ∀ b ∈ e'.bindings, e'.page.Shows t₀ b
  swept : Page.Swept t₀ e.Stale e.drained.page e'.page [] e.bindings e'.bindings

theorem Tracks.flush (h : e.Tracks t₀) : Flushed t₀ e e.flush.2 := by
  have hswept := flush_swept h.ready
  have hcarried : ∀ b' ∈ e.flush.2.bindings, ∃ b ∈ e.bindings, b'.forget = b.forget ∧
      e.flush.2.page.Shows t₀ b' := by
    intro b' hb'
    obtain ⟨b, hb, hcarries⟩ := Page.exists_of_forall₂ hswept.carried.flip hb'
    refine ⟨b, hb, hcarries.same, hcarries.shows ((h.current b hb).symm.imp_right fun hshows => ?_)⟩
    exact (Page.shows_of_store rfl rfl rfl).2 hshows
  have hshows : ∀ b' ∈ e.flush.2.bindings, e.flush.2.page.Shows t₀ b' := by
    intro b' hb'
    obtain ⟨b, -, -, hshows⟩ := hcarried b' hb'
    exact hshows
  have hstore : e.flush.2.state.store = e.state.store := hswept.calm.store
  have hscheduler : e.flush.2.state.scheduler = e.drained.state.scheduler := hswept.calm.scheduler
  refine ⟨⟨⟨?_, ?_, ?_⟩, hswept.ready, fun b' hb' => ?_, ?_, fun b' hb' => .inl (hshows b' hb')⟩,
    hshows, hswept⟩
  · rw [hstore]
    exact h.orderly.invariant
  · rw [Tracked.Unshared, Tracked.heap, hstore]
    exact h.orderly.unshared
  · rw [hscheduler]
    exact h.orderly.requester
  · obtain ⟨b, hb, hforget, -⟩ := hcarried b' hb'
    have hconfig : e.flush.2.page.config = e.page.config := hswept.calm.config
    rw [hconfig]
    exact (Binding.askedFor_of_forget hforget).2 (h.asked b hb)
  · exact h.grammatical.of_kept (HostTree.listenersOf_of_keepsListeners hswept.listeners)

/-! ## Whole runs -/

theorem Tracks.move (h : e.Tracks t₀) (hstep : e.MoveTidy step) : (e.move step).Tracks t₀ := by
  by_cases hflush : step = .flush
  · rw [hflush]
    exact h.flush.tracks
  · obtain ⟨s', hmove, hevolves⟩ := move_evolves h.orderly h.grammatical hstep hflush
    rw [hmove]
    exact h.withState hevolves

theorem Tracks.run {moves : List Move} :
    ∀ {e : Engine}, e.Tracks t₀ → e.RunTidy moves → (e.run moves).Tracks t₀ := by
  induction moves with
  | nil => exact fun h _ => h
  | cons step moves ih => exact fun h hmoves => ih (h.move hmoves.1) hmoves.2

/-! ## The beginning -/

/-- The object that an initial state is, or the empty one, holds each container once. -/
theorem initialObject_spec {h : Heap} (hr : h.AtRest) {value : Value} (hvalue : value.Known h)
    (hunshared : h.Unshared value) (journal : Journal) :
    ∃ id heap journal', initialObject journal h value = (id, heap, journal') ∧ heap.AtRest ∧
      heap.Known (.object id) ∧ heap.Unshared (.object id) := by
  have hempty : (h.addObject .empty).2.AtRest ∧
      (h.addObject .empty).2.Known (.object (h.addObject .empty).1) ∧
      (h.addObject .empty).2.Unshared (.object (h.addObject .empty).1) := by
    refine ⟨Heap.addObject_atRest hr fun name value hget => (by cases hget),
      Heap.known_addObject h .empty _ rfl,
      Heap.Unshared.of_flat (c := .object (h.addObject .empty).1) fun value hmem => ?_⟩
    have hnew : (h.addObject .empty).1.index = h.objects.size := rfl
    rw [Heap.contents, Heap.fields, Heap.object_addObject, if_pos hnew] at hmem
    cases hmem
  cases value with
  | object id => exact ⟨id, h, journal, rfl, hr, hvalue _ rfl, hunshared⟩
  | _ => exact ⟨_, _, _, rfl, hempty⟩

/-- The state of a new engine holds each container once. -/
theorem create_orderly {host : HostTree Reaction} {initial : Datum} {config : Config}
    (hknown : initial.Known .empty) : (create host initial config).state.Orderly := by
  have hplaced := Heap.place_spec Heap.empty_atRest hknown
  have hfresh := Heap.place_fresh Heap.empty_atRest hknown
  cases hplace : Heap.empty.place initial with
  | mk value heap =>
    rw [hplace] at hplaced hfresh
    obtain ⟨id, heap', journal, hinitial, hrest, hroot, hunshared⟩ :=
      initialObject_spec hplaced.atRest hplaced.known hfresh.unshared (.empty config.maxDiagnostics)
    have hcreate : (create host initial config).state =
        ⟨.wrap heap' id, ⟨.empty, journal⟩⟩ := by
      simp only [create, state, hplace, hinitial]
    rw [hcreate]
    exact ⟨⟨Store.sound_wrap _ _, hrest, hroot⟩, hunshared, rfl⟩

/-- An engine that has mounted zones in a tidy state. -/
theorem Mounted.tracks {host : HostTree Reaction} {e e' : Engine} (hmounted : Mounted host e e')
    (horderly : e.state.Orderly) : e'.Tracks host := by
  have hstore : e'.state.store = e.state.store := hmounted.calm.store
  refine ⟨⟨?_, ?_, ?_⟩, hmounted.ready, fun b hb => ?_, hmounted.grammatical,
    fun b hb => .inl (hmounted.shows b hb)⟩
  · rw [hstore]
    exact horderly.invariant
  · rw [Tracked.Unshared, Tracked.heap, hstore]
    exact horderly.unshared
  · have hscheduler : e'.state.scheduler = e.state.scheduler := hmounted.calm.scheduler
    rw [hscheduler]
    exact horderly.requester
  · have hconfig : e'.page.config = e.page.config := hmounted.calm.config
    rw [hconfig]
    exact hmounted.asked b hb

/-- A new engine that has mounted the zones of its document. -/
theorem tracks_start {host : HostTree Reaction} {initial : Datum} {config : Config}
    (ht : host.Tree) (hapart : host.Apart config) (hgrammatical : host.Grammatical)
    (hknown : initial.Known .empty) :
    ((create host initial config).mount .zones).Tracks host := by
  have horderly : (create host initial config).state.Orderly := create_orderly hknown
  have hunlocked := horderly.invariant.atRest.unlocked
  exact (mount_spec rfl ht hapart hgrammatical ExpressionCache.sound_empty hunlocked).tracks horderly

end Engine

end ReactiveTemplate
