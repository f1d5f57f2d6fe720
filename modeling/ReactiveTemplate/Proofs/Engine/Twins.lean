import ReactiveTemplate.Proofs.Engine.Displays
import ReactiveTemplate.Proofs.Engine.Untracked
import ReactiveTemplate.Proofs.State.Journals

/-!
# Runs with and without tracking

Two engines over the same document and state, of which one tracks dependencies and the other
updates every binding on every flush. Their documents part ways, since a list that is rendered
again gets new nodes, but what their bindings show stays the same.

* `HostTree.actingOn`: the listeners of a node that change the state.
* `TwinBindings`, `Engine.Twins`: the invariant of two runs.
* `Engine.Twins.change`, `Engine.Twins.flush`: the steps of both engines.
* `Engine.LooksAs`: bindings that show the same.
* `Engine.tracking_is_unobservable`: all bindings do after a flush.
* `Engine.tracking_shows_old_text`: a container on two paths.
-/

namespace ReactiveTemplate

variable {t₀ : HostTree Reaction} {e e' : Engine} {b b' : Binding} {step : Move}

/-- Conventions with or without tracking. -/
def Config.withTracking (config : Config) (tracking : Bool) : Config :=
  { config with trackDependencies := tracking }

namespace HostTree

/-- All reactions in a document are notes of the host. -/
def NotesOnly (t : HostTree Reaction) : Prop :=
  ∀ y, ∀ l ∈ t.listenersOf y, ∃ label, l.action = .note label

theorem notesOnly_of_deaf {t : HostTree Reaction}
    (hdeaf : ∀ x ∈ t.ids, (t.listenersOf x).isEmpty = true) : t.NotesOnly := by
  intro y l hl
  rw [listenersOf_eq_nil hdeaf y] at hl
  cases hl

theorem NotesOnly.grammatical {t : HostTree Reaction} (h : t.NotesOnly) : t.Grammatical := by
  intro y l hl
  obtain ⟨label, hlabel⟩ := h y l hl
  rw [hlabel]
  trivial

/-- The listeners of a node that change the state. -/
def actingOn (t : HostTree Reaction) (y : NodeId) : List (Listener Reaction) :=
  (t.listenersOf y).filter fun l => l.action.acts

theorem NotesOnly.actingOn {t : HostTree Reaction} (h : t.NotesOnly) (y : NodeId) :
    t.actingOn y = [] := by
  refine List.filter_eq_nil_iff.2 fun l hl => ?_
  obtain ⟨label, hlabel⟩ := h y l hl
  rw [hlabel]
  exact Bool.false_ne_true

theorem filter_reactionsTo (t : HostTree Reaction) (y : NodeId) (event : String) :
    (t.reactionsTo y event).filter Reaction.acts =
      ((t.actingOn y).filter fun l => l.event == event).map Listener.action := by
  rw [reactionsTo, actingOn, List.filter_map, List.filter_filter, List.filter_filter]
  simp only [Bool.and_comm]
  rfl

end HostTree

theorem HostTree.Apart.withTracking {config : Config} (h : t₀.Apart config) (tracking : Bool) :
    t₀.Apart (config.withTracking tracking) :=
  ⟨h.zones, h.texts⟩

/-! ## Steps of the state -/

/-- Whether a reaction calls a function of the state. -/
def Reaction.calls : Reaction → Bool
  | .run (.call _) => true
  | _ => false

namespace Tracked

variable {s s' : State}

theorem writeAlong_alike (h : s.Alike s') (keys : List Key) {α : Type}
    (write : ViewId → Store → Written α) :
    (s.writeAlong keys write).Alike (s'.writeAlong keys write) := by
  rw [writeAlong, writeAlong, h.store]
  cases s.store.readAlong (.view Store.root) keys with
  | mk read store =>
    cases read with
    | value v => exact h.withStore store
    | view id => exact (write_alike (h.withStore store) (write id)).2

theorem setFields_alike (entries : List (String × Value)) :
    ∀ {s s' : State}, s.Alike s' →
      (entries.foldl Engine.setField s).Alike (entries.foldl Engine.setField s') := by
  induction entries with
  | nil => exact fun h => h
  | cons entry entries ih => exact fun h => ih (write_alike h _).2

end Tracked

namespace Engine

/-- A step that is not a flush changes the state only. -/
theorem move_eq_withState (e : Engine) (hflush : step ≠ .flush) :
    e.move step = e.withState (e.move step).state := by
  cases step with
  | dispatch node event =>
    rw [move_dispatch]
    rfl
  | setState update =>
    rw [move, setState]
    cases e.state.heap.place update with
    | mk value heap => cases value <;> rfl
  | flush => exact absurd rfl hflush
  | _ => rfl

/-- Steps of engines whose states differ in their journals only. -/
theorem move_alike (h : e.state.Alike e'.state)
    (hheard : ∀ y, e'.page.host.actingOn y = e.page.host.actingOn y) (hflush : step ≠ .flush) :
    (e.move step).state.Alike (e'.move step).state := by
  cases step with
  | read keys =>
    show Tracked.Alike { e.state with store := (e.state.store.readAlong (.view Store.root) keys).2 }
      { e'.state with store := (e'.state.store.readAlong (.view Store.root) keys).2 }
    rw [h.store]
    exact h.withStore _
  | place datum =>
    show (e.state.placed datum).Alike (e'.state.placed datum)
    rw [Tracked.placed, Tracked.placed, h.heap, h.store]
    exact h.withStore _
  | write keys write => exact Tracked.writeAlong_alike h keys write.through
  | setPath keys path value =>
    exact Tracked.writeAlong_alike h keys fun id store => store.setPath id path value
  | setState update =>
    show (e.setState update).state.Alike (e'.setState update).state
    rw [setState, setState, h.heap]
    cases e.state.heap.place update with
    | mk value heap =>
      dsimp only
      rw [h.store]
      have hplaced := h.withStore { e.state.store with heap := heap }
      cases value with
      | object id => exact Tracked.setFields_alike _ hplaced
      | _ => exact hplaced.withJournals _ _
  | dispatch node event =>
    rw [move_dispatch, move_dispatch]
    show (e.state.perform event _).Alike (e'.state.perform event _)
    rw [← Tracked.perform_filter, ← Tracked.perform_filter _ _ e'.state,
      HostTree.filter_reactionsTo, HostTree.filter_reactionsTo, hheard]
    exact Tracked.perform_alike event _ h
  | flush => exact absurd rfl hflush

/-! ## Two runs -/

/-- A binding without tracking and its like. The copies of both have the same shapes. -/
structure TwinBindings (page page' : Page) (b b' : Binding) : Prop where
  same : b'.forget = b.untracked.forget
  lists : ∃ shapes, page.Lists b shapes ∧ page'.Lists b' shapes

/-- The invariant of two runs, of which the second one does without tracking. -/
structure Twins (t₀ : HostTree Reaction) (e e' : Engine) : Prop where
  tracks : e.Tracks t₀
  tracks' : e'.Tracks t₀
  alike : e.state.Alike e'.state
  config : e'.page.config = e.page.untracked.config
  paired : List.Forall₂ (TwinBindings e.page e'.page) e.bindings e'.bindings
  heard : ∀ y, e'.page.host.actingOn y = e.page.host.actingOn y
  /-- Only the nodes of bindings have listeners that change the state. -/
  quiet : ∀ y, (∀ b ∈ e.bindings, b.node ≠ y) → e.page.host.actingOn y = []

theorem TwinBindings.node {page page' : Page} (h : TwinBindings page page' b b') : b'.node = b.node := by
  have hnode := congrArg Binding.node h.same
  exact hnode

/-- Steps of both engines that are no flushes. -/
theorem Twins.change (h : Twins t₀ e e') (hstep : e.MoveTidy step) (hflush : step ≠ .flush) :
    Twins t₀ (e.move step) (e'.move step) := by
  have hevolves : e.state.Evolves (e.move step).state := by
    obtain ⟨s', hmove, hevolves⟩ :=
      move_evolves h.tracks.orderly h.tracks.grammatical hstep hflush
    rw [hmove]
    exact hevolves
  have halike := move_alike h.alike h.heard hflush
  have htracks := h.tracks.withState hevolves
  have htracks' := h.tracks'.withState (hevolves.alike h.alike halike)
  rw [move_eq_withState e hflush, move_eq_withState e' hflush]
  exact ⟨htracks, htracks', halike, h.config, h.paired.imp fun _ _ hb => ⟨hb.same, hb.lists⟩,
    h.heard, h.quiet⟩

/-! ## Flushes -/

/-- The listeners of a node that change the state are left alone by a flush. -/
theorem flush_actingOn (hr : e.page.Ready t₀ e.bindings)
    (hquiet : ∀ y, (∀ b ∈ e.bindings, b.node ≠ y) → e.page.host.actingOn y = []) (y : NodeId) :
    e.flush.2.page.host.actingOn y = e.page.host.actingOn y := by
  have hswept := flush_swept hr
  by_cases hy : ∀ b ∈ e.bindings, b.node ≠ y
  · rw [hquiet y hy]
    have hnone := hquiet y hy
    rw [HostTree.actingOn] at hnone ⊢
    rcases HostTree.listenersOf_of_keepsListeners hswept.listeners y with hempty | hsame
    · rw [hempty]
      rfl
    · rw [hsame]
      exact hnone
  · simp only [not_forall, ne_eq, not_not] at hy
    obtain ⟨b, hb, rfl⟩ := hy
    obtain ⟨b', hb', hcarries⟩ := Page.exists_of_forall₂ hswept.carried hb
    have hstanding := hswept.ready.declared.standing hb'
    have hnode : b'.node = b.node := by
      have hnode := congrArg Binding.node hcarries.same
      exact hnode
    rw [hnode] at hstanding
    rw [HostTree.actingOn, HostTree.actingOn, hswept.heard b.node hstanding]
    rfl

theorem forall₂_square {α β γ δ : Type} {R : α → β → Prop} {S : γ → δ → Prop} {P : α → γ → Prop}
    {Q : β → δ → Prop} {as : List α} {cs : List γ} (hp : List.Forall₂ P as cs) :
    ∀ {bs : List β} {ds : List δ}, List.Forall₂ R as bs → List.Forall₂ S cs ds →
      (∀ a b c d, b ∈ bs → d ∈ ds → R a b → S c d → P a c → Q b d) → List.Forall₂ Q bs ds := by
  induction hp with
  | nil =>
    rintro _ _ ⟨⟩ ⟨⟩ -
    exact .nil
  | cons hac _ ih =>
    rintro _ _ (_ | ⟨hab, hrest⟩) (_ | ⟨hcd, hrest'⟩) hq
    exact .cons (hq _ _ _ _ (by simp) (by simp) hab hcd hac) (ih hrest hrest' fun a b c d hb hd =>
      hq a b c d (by simp [hb]) (by simp [hd]))

end Engine

/-! ### Lists -/

namespace Page

variable {page page' : Page} {shapes shapes' : List (Branch Figure)}

/-- Bindings of other kinds have no copies. -/
theorem Due.eq_nil (h : Due t₀ page b shapes) (hkind : b.kind ≠ .repetition) : shapes = [] := by
  rw [Due] at h
  rw [Binding.kind] at hkind
  cases hdir : b.directive with
  | repetition clause template placeholder rendered =>
    rw [hdir] at hkind
    exact absurd rfl hkind
  | _ =>
    rw [hdir] at h
    exact h

/-- The same items have the same shapes. -/
theorem Due.same (h : Due t₀ page b shapes) (h' : Due t₀ page' b' shapes')
    (hnode : b'.node = b.node) (hsame : b'.directive.forget = b.directive.forget)
    (hheap : page'.state.heap = page.state.heap) (hscope : page'.state.scope = page.state.scope)
    (hconfig : page'.config = page.untracked.config) : shapes' = shapes := by
  by_cases hkind : b.kind = .repetition
  · obtain ⟨clause, template, placeholder, rendered, hdir⟩ :
        ∃ clause template placeholder rendered,
          b.directive = .repetition clause template placeholder rendered := by
      rw [Binding.kind] at hkind
      cases hdir : b.directive with
      | repetition clause template placeholder rendered => exact ⟨_, _, _, _, rfl⟩
      | _ =>
        rw [hdir] at hkind
        cases hkind
    obtain ⟨rendered', hdir'⟩ := repetition_of_forget hsame hdir
    rw [Due, hdir] at h
    rw [Due, hdir', hheap, hscope, hconfig, hnode] at h'
    obtain ⟨id, shape, hid, hshape, rfl⟩ := h
    obtain ⟨id', shape', hid', hshape', rfl⟩ := h'
    obtain rfl : id' = id := by
      rw [hid] at hid'
      exact (Value.array.inj (Except.ok.inj hid')).symm
    rw [hshape'.unique hshape]
    rfl
  · have hkind' : b'.kind ≠ .repetition := by
      rw [← Binding.kind_forget] at hkind ⊢
      have hsame' : b'.forget.kind = b.forget.kind := congrArg Directive.kind hsame
      rw [hsame']
      exact hkind
    rw [h.eq_nil hkind, h'.eq_nil hkind']

end Page

namespace Engine

/-- Sweeps over both bindings, after which both show the same state. -/
theorem TwinBindings.swept {page₀ page₀' page page' : Page} {c c' : Binding}
    {chosen chosen' : Binding → Prop} (h : TwinBindings page₀ page₀' b b')
    (hcalm : page₀.Calm page) (hcalm' : page₀'.Calm page')
    (hheap : page'.state.heap = page.state.heap) (hscope : page'.state.scope = page.state.scope)
    (hconfig : page'.config = page.untracked.config)
    (hc : Page.Carries t₀ chosen page₀ page b c) (hc' : Page.Carries t₀ chosen' page₀' page' b' c')
    (hshows : page.Shows t₀ c) (hshows' : page'.Shows t₀ c') : TwinBindings page page' c c' := by
  have hsame : c'.forget = c.untracked.forget := by
    have huntracked := congrArg Binding.untracked hc.same
    exact hc'.same.trans (h.same.trans huntracked.symm)
  have hdirective : c'.directive.forget = c.directive.forget := by
    have hdirective := congrArg Binding.directive hsame
    exact hdirective
  have hnode : c'.node = c.node := by
    have hnode := congrArg Binding.node hsame
    exact hnode
  refine ⟨hsame, ?_⟩
  obtain ⟨shapes, hlists, hlists'⟩ := h.lists
  -- Without a list both keep the copies that they had.
  have hkept : c.WithoutList page → c'.WithoutList page' →
      ∃ shapes, page.Lists c shapes ∧ page'.Lists c' shapes := by
    intro hnone hnone'
    refine ⟨shapes, hc.lists shapes hlists fun _ => hcalm.withoutList.1 ?_,
      hc'.lists shapes hlists' fun _ => hcalm'.withoutList.1 ?_⟩
    · exact Page.withoutList_of_forget (congrArg Binding.directive hc.same).symm hnone
    · exact Page.withoutList_of_forget (congrArg Binding.directive hc'.same).symm hnone'
  rcases hshows.lists with hnone | ⟨shapes, hdue, hlists⟩
  · exact hkept hnone ((Page.withoutList_of_state hheap hscope).2
      (Page.withoutList_of_forget hdirective hnone))
  · rcases hshows'.lists with hnone' | ⟨shapes', hdue', hlists'⟩
    · exact hkept (Page.withoutList_of_forget hdirective.symm
        ((Page.withoutList_of_state hheap hscope).1 hnone')) hnone'
    · rw [hdue.same hdue' hnode hdirective hheap hscope hconfig] at hlists'
      exact ⟨shapes, hlists, hlists'⟩

/-- A flush of both engines. -/
theorem Twins.flush (h : Twins t₀ e e') : Twins t₀ e.flush.2 e'.flush.2 := by
  have hflushed := h.tracks.flush
  have hflushed' := h.tracks'.flush
  have hcalm := hflushed.swept.calm
  have hcalm' := hflushed'.swept.calm
  have halike : e.flush.2.state.Alike e'.flush.2.state := by
    have hstore : e.flush.2.state.store = e.state.store := hcalm.store
    have hstore' : e'.flush.2.state.store = e'.state.store := hcalm'.store
    have hscheduler : e.flush.2.state.scheduler = e.state.scheduler.takePending.2 := hcalm.scheduler
    have hscheduler' : e'.flush.2.state.scheduler = e'.state.scheduler.takePending.2 :=
      hcalm'.scheduler
    refine ⟨?_, ?_⟩
    · rw [hstore, hstore', h.alike.store]
    · rw [hscheduler, hscheduler', h.alike.scheduler]
  have hconfig : e'.flush.2.page.config = e.flush.2.page.untracked.config := by
    have hconfig : e.flush.2.page.config = e.page.config := hcalm.config
    have hconfig' : e'.flush.2.page.config = e'.page.config := hcalm'.config
    rw [hconfig', h.config, Page.untracked, Page.untracked, hconfig]
  have hpaired : List.Forall₂ (TwinBindings e.flush.2.page e'.flush.2.page) e.flush.2.bindings
      e'.flush.2.bindings := by
    refine forall₂_square h.paired hflushed.swept.carried hflushed'.swept.carried ?_
    intro b c b' c' hcmem hcmem' hc hc' hb
    have hdrained : TwinBindings e.drained.page e'.drained.page b b' := ⟨hb.same, hb.lists⟩
    exact hdrained.swept hcalm hcalm' halike.heap halike.scope hconfig hc hc'
      (hflushed.shows c hcmem) (hflushed'.shows c' hcmem')
  have hquiet' : ∀ y, (∀ b ∈ e'.bindings, b.node ≠ y) → e'.page.host.actingOn y = [] := by
    intro y hy
    rw [h.heard y]
    refine h.quiet y fun b hb heq => ?_
    obtain ⟨b', hb', htwins⟩ := Page.exists_of_forall₂ h.paired hb
    exact hy b' hb' (htwins.node.trans heq)
  refine ⟨hflushed.tracks, hflushed'.tracks, halike, hconfig, hpaired, fun y => ?_, fun y hy => ?_⟩
  · rw [flush_actingOn h.tracks.ready h.quiet, flush_actingOn h.tracks'.ready hquiet', h.heard]
  · rw [flush_actingOn h.tracks.ready h.quiet]
    refine h.quiet y fun b hb heq => ?_
    obtain ⟨c, hc, hcarries⟩ := Page.exists_of_forall₂ hflushed.swept.carried hb
    have hnode := congrArg Binding.node hcarries.same
    exact hy c hc (hnode.trans heq)

/-! ## Whole runs -/

/-- A step of both engines. -/
theorem Twins.move (h : Twins t₀ e e') (hstep : e.MoveTidy step) :
    Twins t₀ (e.move step) (e'.move step) := by
  by_cases hflush : step = .flush
  · rw [hflush]
    exact h.flush
  · exact h.change hstep hflush

theorem Twins.run {moves : List Move} :
    ∀ {e e' : Engine}, Twins t₀ e e' → e.RunTidy moves → Twins t₀ (e.run moves) (e'.run moves) := by
  induction moves with
  | nil => exact fun h _ => h
  | cons step moves ih => exact fun h hmoves => ih (h.move hmoves.1) hmoves.2

/-! ## The beginning -/

/-- What an engine has mounted is the same without tracking. -/
theorem Mounted.twins {m : Engine} (h : Mounted t₀ e m) (hnotes : t₀.NotesOnly)
    (htracks : m.Tracks t₀) (htracks' : m.untracked.Tracks t₀) : Twins t₀ m m.untracked := by
  have hpaired : List.Forall₂ (TwinBindings m.page m.untracked.page) m.bindings
      m.untracked.bindings := by
    refine List.forall₂_map_right_iff.2 (List.forall₂_same.2 fun b hb => ⟨rfl, ?_⟩)
    obtain ⟨shapes, hlists⟩ := h.lists b hb
    exact ⟨shapes, hlists, hlists⟩
  refine ⟨htracks, htracks', Tracked.Alike.refl _, rfl, hpaired, fun y => rfl, fun y hy => ?_⟩
  rcases h.heard y with ⟨b, hb, hnode⟩ | hempty | hsame
  · exact absurd hnode (hy b hb)
  · rw [HostTree.actingOn, hempty]
    rfl
  · have hnone := hnotes.actingOn y
    rw [HostTree.actingOn] at hnone ⊢
    rw [hsame]
    exact hnone

theorem create_untracked (host : HostTree Reaction) (initial : Datum) (config : Config) :
    create host initial (config.withTracking false) =
      (create host initial (config.withTracking true)).untracked := by
  rw [create, create]
  cases Heap.empty.place initial
  rfl

/-- An engine and its like begin to track their states. -/
theorem twins_start {host : HostTree Reaction} {initial : Datum} {config : Config} (ht : host.Tree)
    (hapart : host.Apart config) (hnotes : host.NotesOnly) (hknown : initial.Known .empty) :
    Twins host ((create host initial (config.withTracking true)).mount .zones)
      ((create host initial (config.withTracking false)).mount .zones) := by
  have htracks := tracks_start ht (hapart.withTracking true) hnotes.grammatical hknown
  have htracks' := tracks_start ht (hapart.withTracking false) hnotes.grammatical hknown
  have hmounted : Mounted host _ _ :=
    mount_spec (e := create host initial (config.withTracking true)) rfl ht
      (hapart.withTracking true) hnotes.grammatical ExpressionCache.sound_empty
      (create_orderly hknown).invariant.atRest.unlocked
  rw [create_untracked, mount_untracked] at htracks' ⊢
  exact hmounted.twins hnotes htracks htracks'

/-! ## What bindings show -/

/-- Two bindings are for the same attribute and show the same. -/
def LooksAs (e e' : Engine) (b b' : Binding) : Prop :=
  b'.node = b.node ∧ b'.kind = b.kind ∧ b'.source = b.source ∧
    match b.kind with
    | .bind => ∃ text, e.page.host.text b.node = .ok text ∧ e'.page.host.text b.node = .ok text
    | .visibility => ∃ display, e.page.host.style b.node "display" = .ok display ∧
        e'.page.host.style b.node "display" = .ok display
    | .presence => e'.page.host.parent? b.node = e.page.host.parent? b.node
    | .repetition => ∃ texts : List String, b.rendered.map e.page.host.text = texts.map .ok ∧
        b'.rendered.map e'.page.host.text = texts.map .ok
    | .model => ∃ value, e.page.host.value b.node = .ok value ∧
        e'.page.host.value b.node = .ok value
    | .events => True

end Engine

/-- Copies have the texts of their shapes. -/
theorem Page.Lists.texts {page : Page} {shapes : List (Branch Figure)} (hl : page.host.Linked)
    (h : page.Lists b shapes) :
    b.rendered.map page.host.text = (shapes.map Branch.text).map .ok := by
  rw [Page.Lists] at h
  generalize b.rendered = rendered at h ⊢
  induction h with
  | nil => rfl
  | cons hdraws _ ih =>
    rw [List.map_cons, List.map_cons, List.map_cons, hdraws.text_eq hl, ih]

namespace Engine

/-- What is seen at the node of a binding in a state. -/
def Seen (t₀ : HostTree Reaction) (e : Engine) (b : Binding) : Prop :=
  let value := e.page.value (.compile b.source)
  match b.kind with
  | .bind => e.page.host.text b.node = .ok (e.page.textOf value)
  | .visibility =>
    e.page.host.style b.node "display" = .ok (if value.isTruthy then "" else "none")
  | .presence =>
    e.page.host.parent? b.node = if value.isTruthy then t₀.parent? b.node else none
  | .model => e.page.host.value b.node = .ok (e.page.textOf value)
  | .repetition | .events => True

theorem Displays.seen (ht : t₀.Tree) (hl : e.page.host.Linked) (h : e.Displays t₀ b) :
    e.Seen t₀ b := by
  rw [Displays] at h
  rw [Seen, Binding.kind]
  cases hdir : b.directive with
  | presence expression placeholder present =>
    rw [hdir] at h
    obtain ⟨⟨p, left, right, hsplit, hchildren⟩, haside⟩ := h
    show _ = ite _ _ _
    split
    · next htruthy =>
      rw [if_pos htruthy] at hchildren
      have hp : b.node ∈ t₀.children p := by simp [hsplit]
      have hp' : b.node ∈ e.page.host.children p := by simp [hchildren]
      rw [ht.linked.child hp, hl.child hp']
    · next htruthy =>
      rw [if_neg htruthy] at haside
      exact haside
  | repetition clause template placeholder rendered => trivial
  | _ =>
    rw [hdir] at h
    exact h

/-- Bindings of two runs after a flush. -/
theorem Twins.looksAs (h : Twins t₀ e e') (hb : b ∈ e.bindings) (hb' : b' ∈ e'.bindings)
    (htwins : TwinBindings e.page e'.page b b') (hshows : e.page.Shows t₀ b)
    (hshows' : e'.page.Shows t₀ b') : LooksAs e e' b b' := by
  have hready := h.tracks.ready
  have hready' := h.tracks'.ready
  have hseen := (hready.displays hb (h.tracks.asked b hb) hshows).seen hready.tree hready.kept.linked
  have hseen' :=
    (hready'.displays hb' (h.tracks'.asked b' hb') hshows').seen hready'.tree hready'.kept.linked
  have hkind : b'.kind = b.kind := by
    rw [← Binding.kind_forget, ← Binding.kind_forget b]
    have hkind := congrArg Binding.kind htwins.same
    exact hkind
  have hsource : b'.source = b.source := by
    have hsource := congrArg Binding.source htwins.same
    exact hsource
  have hheap : e'.page.state.heap = e.page.state.heap := h.alike.heap
  have hscope : e'.page.state.scope = e.page.state.scope := h.alike.scope
  have hvalue : e'.page.value (.compile b.source) = e.page.value (.compile b.source) := by
    rw [Page.value, Page.value, hheap, hscope]
  have htextOf : e'.page.textOf (e.page.value (.compile b.source)) =
      e.page.textOf (e.page.value (.compile b.source)) := by
    rw [Page.textOf, Page.textOf, hheap]
  rw [Seen, htwins.node, hkind, hsource, hvalue, htextOf] at hseen'
  rw [Seen] at hseen
  refine ⟨htwins.node, hkind, hsource, ?_⟩
  cases hcase : b.kind with
  | repetition =>
    obtain ⟨shapes, hlists, hlists'⟩ := htwins.lists
    exact ⟨shapes.map Branch.text, hlists.texts hready.kept.linked,
      hlists'.texts hready'.kept.linked⟩
  | presence =>
    rw [hcase] at hseen hseen'
    exact hseen'.trans hseen.symm
  | events => trivial
  | _ =>
    rw [hcase] at hseen hseen'
    exact ⟨_, hseen, hseen'⟩

/-- After every flush of a run whose writes leave each container on one path only, an engine
    that tracks dependencies and one that does not show the same. -/
theorem tracking_is_unobservable {host : HostTree Reaction} {initial : Datum} {config : Config}
    {moves : List Move} (ht : host.Tree) (hapart : host.Apart config) (hnotes : host.NotesOnly)
    (hknown : initial.Known .empty)
    (hmoves : ((create host initial (config.withTracking true)).mount
      .zones).RunTidy moves) :
    let e := (((create host initial (config.withTracking true)).mount
      .zones).run moves).flush.2
    let e' := (((create host initial (config.withTracking false)).mount
      .zones).run moves).flush.2
    List.Forall₂ (LooksAs e e') e.bindings e'.bindings := by
  intro e e'
  have hrun := (twins_start ht hapart hnotes hknown).run hmoves
  have htwins : Twins host e e' := hrun.flush
  have hshows := hrun.tracks.flush.shows
  have hshows' := hrun.tracks'.flush.shows
  refine List.forall₂_iff_zip.2 ⟨htwins.paired.length_eq, fun {b b'} hmem => ?_⟩
  have hpair := (List.forall₂_iff_zip.1 htwins.paired).2 hmem
  obtain ⟨hb, hb'⟩ := List.of_mem_zip hmem
  exact htwins.looksAs hb hb' hpair (hshows b hb) (hshows' b' hb')

/-- An event with a single reaction, which calls no function of the state, only has to leave a
    tidy state. -/
theorem RunTidy.of_single_reaction {node : NodeId} {event : HostEvent}
    (hlength : (e.page.host.reactionsTo node event.name).length = 1)
    (hcalls : ∀ r ∈ e.page.host.reactionsTo node event.name, r.calls = false)
    (h : (e.run [.dispatch node event]).state.Unshared) : e.RunTidy [.dispatch node event] := by
  rw [run, List.foldl_cons, List.foldl_nil, move_dispatch] at h
  refine ⟨?_, trivial⟩
  rw [MoveTidy]
  obtain ⟨r, hr⟩ := List.length_eq_one_iff.1 hlength
  rw [hr] at hcalls h ⊢
  refine ⟨?_, trivial⟩
  have hquiet := hcalls r (List.mem_singleton_self r)
  have hreact : (Tracked.react event e.state r).Unshared := h
  cases r with
  | note label => trivial
  | input path => exact hreact
  | run action =>
    have hact : (e.state.act event action).Unshared := hreact
    cases action with
    | call name => cases hquiet
    | _ => exact hact

/-- A page with a button that sets a name and a text that shows it. -/
def namePage : HostTree Reaction :=
  zonePage [("button", "vx-on", "click: name = 'Ada'"), ("span", "vx-bind", "name")]

/-- The engine of the name. -/
def nameEngine (tracking : Bool) : Engine :=
  (create namePage (.object [("name", .text "")])
    (Config.standard.withTracking tracking)).mount .zones

/-- A click on the button. -/
def nameMoves : List Move := [.dispatch ⟨2, 0⟩ ⟨"click", none⟩]

theorem nameMoves_tidy : (nameEngine true).RunTidy nameMoves := by
  have hunshared : ((nameEngine true).run nameMoves).state.Unshared :=
    Heap.Unshared.of_flat (c := .object ((nameEngine true).run nameMoves).state.store.rootObject)
      (by decide +kernel)
  exact RunTidy.of_single_reaction (by decide +kernel) (by decide +kernel) hunshared

theorem name_tracking_is_unobservable :
    let e := ((nameEngine true).run nameMoves).flush.2
    let e' := ((nameEngine false).run nameMoves).flush.2
    namePage.Tree ∧ namePage.Apart .standard ∧ namePage.NotesOnly ∧
      (Datum.object [("name", .text "")]).Known .empty ∧ (nameEngine true).RunTidy nameMoves ∧
      List.Forall₂ (LooksAs e e') e.bindings e'.bindings := by
  have ht : namePage.Tree := tree_zonePage _
  have hapart : namePage.Apart .standard :=
    HostTree.Apart.of_leaves (z := ⟨1, 0⟩) (by decide +kernel) (by decide +kernel)
  have hnotes : namePage.NotesOnly := HostTree.notesOnly_of_deaf (by decide +kernel)
  have hknown : (Datum.object [("name", .text "")]).Known .empty := by
    simp [Datum.Known, Datum.FieldsKnown]
  have htidy := nameMoves_tidy
  rw [nameEngine] at htidy
  rw [nameEngine, nameEngine]
  exact ⟨ht, hapart, hnotes, hknown, htidy,
    tracking_is_unobservable ht hapart hnotes hknown htidy⟩

/-! ## A container on two paths -/

/-- A page with a button that makes `b` the object that `a` is, a button that changes the object
    by way of `b`, and a text that shows it by way of `a`. -/
def aliasPage : HostTree Reaction :=
  zonePage [("button", "vx-on", "click: b = a"), ("button", "vx-on", "click: b.x = 'new'"),
    ("span", "vx-bind", "a.x")]

/-- The engine of the object. -/
def aliasEngine (tracking : Bool) : Engine :=
  (create aliasPage (.object [("a", .object [("x", .text "old")]), ("b", .text "none")])
    (Config.standard.withTracking tracking)).mount .zones

/-- A click on each button. -/
def aliasMoves : List Move :=
  [.dispatch ⟨2, 0⟩ ⟨"click", none⟩, .flush, .dispatch ⟨3, 0⟩ ⟨"click", none⟩]

/-- Tracking leaves the text as it was. -/
theorem tracking_shows_old_text :
    let e := ((aliasEngine true).run aliasMoves).flush.2
    let e' := ((aliasEngine false).run aliasMoves).flush.2
    aliasPage.Tree ∧ aliasPage.Apart .standard ∧ aliasPage.NotesOnly ∧
      ¬ List.Forall₂ (LooksAs e e') e.bindings e'.bindings := by
  intro e e'
  refine ⟨tree_zonePage _, HostTree.Apart.of_leaves (z := ⟨1, 0⟩) (by decide +kernel)
    (by decide +kernel), HostTree.notesOnly_of_deaf (by decide +kernel), fun hlooks => ?_⟩
  have hshown : ((⟨4, 0⟩, .bind) : NodeId × DirectiveKind) ∈
      e.bindings.map fun b => (b.node, b.kind) := by decide +kernel
  obtain ⟨b, hb, hshown⟩ := List.mem_map.1 hshown
  obtain ⟨hnode, hkind⟩ := Prod.mk.inj hshown
  obtain ⟨b', -, -, -, -, hsame⟩ := Page.exists_of_forall₂ hlooks hb
  rw [hkind] at hsame
  obtain ⟨text, htext, htext'⟩ := hsame
  rw [hnode] at htext htext'
  have hold : (e.page.host.text ⟨4, 0⟩).toOption = some "old" := by decide +kernel
  have hnew : (e'.page.host.text ⟨4, 0⟩).toOption = some "new" := by decide +kernel
  rw [htext] at hold
  rw [htext'] at hnew
  exact absurd (hold.symm.trans hnew) (by decide)

end Engine

end ReactiveTemplate
