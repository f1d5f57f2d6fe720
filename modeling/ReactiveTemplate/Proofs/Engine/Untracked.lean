import ReactiveTemplate.Engine.Basic

/-!
# Mounting without tracking

An engine that does not track dependencies mounts a document as one that does. Only the bindings
that it makes know no paths.

* `Page.untracked`, `Binding.untracked`, `Engine.untracked`: without tracking.
* `Page.scanZone_untracked`: the bindings that are made.
* `Page.update_untracked`: their updates.
* `Engine.mount_untracked`: mounting.
-/

namespace ReactiveTemplate

/-- A page without tracking. -/
def Page.untracked (page : Page) : Page :=
  { page with config := { page.config with trackDependencies := false } }

/-- A binding that every flush updates. -/
def Binding.untracked (b : Binding) : Binding := { b with reads := none }

/-- An engine without tracking. -/
def Engine.untracked (e : Engine) : Engine :=
  { e with page := e.page.untracked, bindings := e.bindings.map Binding.untracked }

/-! ## Steps in a row -/

/-- Steps that do the same on other states. -/
theorem untilFailure_map {σ τ ε β : Type} {step : σ → β → Except ε Unit × σ}
    {step' : τ → β → Except ε Unit × τ} {f : σ → τ}
    (h : ∀ s x, step' (f s) x = ((step s x).1, f (step s x).2)) (xs : List β) :
    ∀ s, untilFailure step' xs (f s) = ((untilFailure step xs s).1, f (untilFailure step xs s).2) := by
  induction xs with
  | nil => exact fun s => rfl
  | cons x xs ih =>
    intro s
    rw [untilFailure, untilFailure, h]
    cases hstep : step s x with
    | mk r s' =>
      cases r with
      | error e => rfl
      | ok _ => exact ih s'

namespace Page

variable (page : Page)

theorem untracked_host : page.untracked.host = page.host := rfl

theorem untracked_state : page.untracked.state = page.state := rfl

theorem untracked_cache : page.untracked.cache = page.cache := rfl

theorem attributeName_untracked (kind : DirectiveKind) :
    page.untracked.attributeName kind = page.attributeName kind := rfl

theorem mk_untracked (host : HostTree Reaction) (state : State) (cache : ExpressionCache) :
    (⟨host, page.untracked.config, state, cache⟩ : Page) =
      Page.untracked ⟨host, page.config, state, cache⟩ := rfl

/-! ## Making bindings -/

theorem edit_untracked (edited : Except HostError (HostTree Reaction)) :
    page.untracked.edit edited = ((page.edit edited).1, (page.edit edited).2.untracked) := by
  cases edited <;> rfl

theorem evaluate_untracked (expression : CompiledExpression) (scope : Scope) :
    page.untracked.evaluate expression scope =
      ((page.evaluate expression scope).1, (page.evaluate expression scope).2.untracked) := by
  rw [evaluate, evaluate, untracked_state]
  cases expression.eval? page.state.heap scope <;> rfl

theorem compile_untracked (text : String) (marker : ContextMarker) :
    page.untracked.compile text marker =
      ((page.compile text marker).1, (page.compile text marker).2.untracked) := rfl

theorem registerPresence_untracked (node : NodeId) (text : String) :
    page.untracked.registerPresence node text =
      ((page.registerPresence node text).1, (page.registerPresence node text).2.untracked) := by
  rw [registerPresence, registerPresence, compile_untracked]
  cases page.compile text .state with
  | mk expression page =>
    simp only [untracked_host, untracked_state, untracked_cache, attributeName_untracked,
      mk_untracked, evaluate_untracked]
    generalize evaluate ⟨_, page.config, _, _⟩ expression _ = evaluated
    obtain ⟨value, page⟩ := evaluated
    dsimp only
    split
    · rfl
    · dsimp only [editPartly, untracked_host]
      cases page.host.replace node _ with
      | mk r host => cases r <;> rfl

theorem elementReads_untracked (kind : DirectiveKind) (item : String) (reads : List String)
    (element : NodeId) :
    elementReads kind item (reads, page.untracked) element =
      ((elementReads kind item (reads, page) element).1,
        (elementReads kind item (reads, page) element).2.untracked) := by
  rw [elementReads, elementReads]
  dsimp only [untracked_host, attributeName_untracked]
  cases page.host.attribute? element (page.attributeName kind) <;> rfl

theorem kindReads_untracked (item : String) (template : NodeId) (found : List String × Page)
    (kind : DirectiveKind) :
    kindReads item template (found.1, found.2.untracked) kind =
      ((kindReads item template found kind).1, (kindReads item template found kind).2.1,
        (kindReads item template found kind).2.2.untracked) := by
  rw [kindReads, kindReads]
  dsimp only [untracked_host, attributeName_untracked]
  cases found.2.host.withAttribute template (found.2.attributeName kind) with
  | error e => rfl
  | ok elements =>
    dsimp only
    exact congrArg (Prod.mk _)
      (List.foldl_hom (fun found : List String × Page => (found.1, found.2.untracked))
      (fun found element => elementReads_untracked found.2 kind item found.1 element))

theorem templateReads_untracked (item : String) (template : NodeId) :
    page.untracked.templateReads item template =
      ((page.templateReads item template).1, (page.templateReads item template).2.1,
        (page.templateReads item template).2.2.untracked) :=
  untilFailure_map (f := fun found : List String × Page => (found.1, found.2.untracked))
    (kindReads_untracked item template) templateKinds ([], page)

theorem repetitionLabel_untracked (clause : ForClause) :
    page.untracked.repetitionLabel clause = page.repetitionLabel clause := rfl

theorem registerRepetition_untracked (node : NodeId) (text : String) :
    page.untracked.registerRepetition node text =
      ((page.registerRepetition node text).1, (page.registerRepetition node text).2.untracked) := by
  unfold registerRepetition
  dsimp only
  cases parseForClause (Text.trim text) with
  | error e => exact Eq.refl _
  | ok clause =>
    dsimp only [editPartly, untracked_host]
    generalize page.host.cloneNode node = cloned
    obtain ⟨template | template, host⟩ := cloned
    · exact Eq.refl _
    · dsimp only [untracked_state, untracked_cache]
      rw [mk_untracked, repetitionLabel_untracked]
      generalize host.createPlaceholder _ = made
      obtain ⟨placeholder, host⟩ := made
      dsimp only
      generalize host.replace node placeholder = replaced
      obtain ⟨outcome | outcome, host⟩ := replaced
      · exact Eq.refl _
      · dsimp only
        rw [mk_untracked, templateReads_untracked]
        generalize templateReads ⟨host, page.config, page.state, page.cache⟩ clause.item template = r
        obtain ⟨outcome | outcome, reads, page⟩ := r <;> exact Eq.refl _

theorem registerModel_untracked (node : NodeId) (text : String) :
    page.untracked.registerModel node text =
      ((page.registerModel node text).1, (page.registerModel node text).2.untracked) := by
  rw [registerModel, registerModel, compile_untracked]
  generalize page.compile text .state = compiled
  obtain ⟨expression, page⟩ := compiled
  dsimp only [untracked_host]
  cases expression.outcome with
  | error e => rfl
  | ok e =>
    cases e with
    | path path =>
      dsimp only
      cases page.host.addListener node "input" (.input path.dotted) <;> rfl
    | _ => rfl

theorem registerEntry_untracked (node : NodeId) (found : List Nat × Page) (entry : String) :
    registerEntry node (found.1, found.2.untracked) entry =
      ((registerEntry node found entry).1, (registerEntry node found entry).2.1,
        (registerEntry node found entry).2.2.untracked) := by
  rw [registerEntry, registerEntry]
  dsimp only [untracked_host]
  cases splitEntry? entry with
  | none => rfl
  | some split =>
    dsimp only
    cases parseEventAction split.2 with
    | error e => rfl
    | ok action =>
      dsimp only
      cases found.2.host.addListener node split.1 (.run action) <;> rfl

theorem registerEvents_untracked (node : NodeId) (text : String) :
    page.untracked.registerEvents node text =
      ((page.registerEvents node text).1, (page.registerEvents node text).2.untracked) := by
  have hentries := untilFailure_map (f := fun found : List Nat × Page => (found.1, found.2.untracked))
    (registerEntry_untracked node) (eventEntries text) ([], page)
  unfold registerEvents
  rw [hentries]
  generalize untilFailure (registerEntry node) (eventEntries text) ([], page) = r
  obtain ⟨outcome | outcome, listeners, page⟩ := r
  · rfl
  · cases listeners <;> rfl

theorem draft_untracked (kind : DirectiveKind) (node : NodeId) (text : String) :
    page.untracked.draft kind node text =
      ((page.draft kind node text).1, (page.draft kind node text).2.untracked) := by
  cases kind with
  | bind | visibility => rfl
  | presence => rw [draft, draft, registerPresence_untracked]
  | repetition => exact registerRepetition_untracked page node text
  | model => exact registerModel_untracked page node text
  | events => exact registerEvents_untracked page node text

theorem register_untracked (id : Nat) (kind : DirectiveKind) (node : NodeId) (text : String) :
    page.untracked.register id kind node text =
      ((page.register id kind node text).1.map fun made => made.map Binding.untracked,
        (page.register id kind node text).2.untracked) := by
  rw [register, register, draft_untracked]
  generalize page.draft kind node text = drafted
  obtain ⟨outcome | draft, page⟩ := drafted
  · rfl
  · cases draft <;> rfl

theorem declarations_untracked (zone : NodeId) :
    page.untracked.declarations zone = page.declarations zone := rfl

/-- Bindings and the page they are made for, without tracking. -/
def untrackedWith (found : List Binding × Page) : List Binding × Page :=
  (found.1.map Binding.untracked, found.2.untracked)

theorem registerDeclaration_untracked (first : Nat) (found : List Binding × Page)
    (d : Declaration) :
    registerDeclaration first (untrackedWith found) d =
      untrackedWith (registerDeclaration first found d) := by
  obtain ⟨bs, page⟩ := found
  simp only [registerDeclaration, untrackedWith, register_untracked, List.length_map]
  generalize page.register (first + bs.length) d.kind d.node d.text = registered
  obtain ⟨outcome | made, page⟩ := registered
  · rfl
  · cases made with
    | none => rfl
    | some b => simp [Except.map, List.map_append]

theorem scanZone_untracked (first : Nat) (found : List Binding × Page) (zone : NodeId) :
    scanZone first (untrackedWith found) zone = untrackedWith (scanZone first found zone) := by
  obtain ⟨bs, page⟩ := found
  rw [scanZone, scanZone]
  dsimp only [untrackedWith]
  rw [declarations_untracked]
  cases page.declarations zone with
  | error e => rfl
  | ok ds =>
    dsimp only
    let found : List Binding × Page := (bs, { page with
      state := page.state.log .debug
        (s!"found {ds.length} directives in " ++ page.host.describe zone) })
    show ds.foldl (registerDeclaration first) (untrackedWith found) =
      untrackedWith (ds.foldl (registerDeclaration first) found)
    exact List.foldl_hom untrackedWith (registerDeclaration_untracked first)

/-! ## Updating bindings -/

theorem setVisible_untracked (node : NodeId) (visible : Bool) :
    page.untracked.setVisible node visible =
      ((page.setVisible node visible).1, (page.setVisible node visible).2.untracked) :=
  edit_untracked page _

theorem renderElement_untracked (kind : DirectiveKind) (scope : Scope) (element : NodeId) :
    renderElement kind scope page.untracked element =
      ((renderElement kind scope page element).1,
        (renderElement kind scope page element).2.untracked) := by
  rw [renderElement, renderElement, untracked_host, attributeName_untracked]
  cases page.host.attribute? element (page.attributeName kind) with
  | none => rfl
  | some source =>
    dsimp only
    rw [compile_untracked]
    dsimp only
    rw [evaluate_untracked]
    generalize evaluate _ _ scope = evaluated
    obtain ⟨value, page⟩ := evaluated
    cases kind <;> exact edit_untracked page _

theorem renderKind_untracked (scope : Scope) (copy : NodeId) (kind : DirectiveKind) :
    renderKind scope copy page.untracked kind =
      ((renderKind scope copy page kind).1, (renderKind scope copy page kind).2.untracked) := by
  rw [renderKind, renderKind, untracked_host, attributeName_untracked]
  cases page.host.withAttribute copy (page.attributeName kind) with
  | error e => rfl
  | ok elements =>
    exact untilFailure_map (fun page element => renderElement_untracked page kind scope element)
      elements page

theorem renderCopy_untracked (copy : NodeId) (item : String) (value : Value) :
    page.untracked.renderCopy copy item value =
      ((page.renderCopy copy item value).1, (page.renderCopy copy item value).2.untracked) :=
  untilFailure_map (fun page kind => renderKind_untracked page _ copy kind) templateKinds page

theorem placeCopy_untracked (anchor copy : NodeId) (item : String) (value : Value) :
    page.untracked.placeCopy anchor copy item value =
      ((page.placeCopy anchor copy item value).1,
        (page.placeCopy anchor copy item value).2.untracked) := by
  rw [placeCopy, placeCopy, renderCopy_untracked]
  generalize page.renderCopy copy item value = rendered
  obtain ⟨outcome | outcome, page⟩ := rendered <;> rfl

theorem discard_untracked (node : NodeId) :
    page.untracked.discard node = (page.discard node).untracked := by
  rw [discard, discard, untracked_host, edit_untracked]

theorem renderItems_untracked (item : String) (template : NodeId) (earlier : Option HostError)
    (values : List Value) : ∀ (anchor : NodeId) (rendered : List NodeId) (page : Page),
      renderItems item template earlier values anchor rendered page.untracked =
        ((renderItems item template earlier values anchor rendered page).1,
          (renderItems item template earlier values anchor rendered page).2.1,
          (renderItems item template earlier values anchor rendered page).2.2.untracked) := by
  induction values with
  | nil => exact fun _ _ _ => rfl
  | cons value values ih =>
    intro anchor rendered page
    rw [renderItems, renderItems]
    dsimp only [editPartly, untracked_host]
    generalize page.host.cloneNode template = cloned
    obtain ⟨outcome | copy, host⟩ := cloned
    · rfl
    · dsimp only [untracked_state, untracked_cache]
      rw [mk_untracked, placeCopy_untracked]
      generalize placeCopy ⟨host, page.config, page.state, page.cache⟩ anchor copy item value = placed
      obtain ⟨outcome | outcome, page⟩ := placed
      · dsimp only
        rw [discard_untracked]
      · exact ih copy (rendered ++ [copy]) page

theorem listAt_untracked (path : Path) :
    page.untracked.listAt path = ((page.listAt path).1, (page.listAt path).2.untracked) := by
  rw [listAt, listAt, untracked_state]
  cases resolvePath page.state.heap page.state.scope path with
  | error e => rfl
  | ok value =>
    cases value with
    | array id =>
      dsimp only
      split <;> rfl
    | _ => rfl

theorem updateRepetition_untracked (clause : ForClause) (template placeholder : NodeId)
    (rendered : List NodeId) :
    page.untracked.updateRepetition clause template placeholder rendered =
      ((page.updateRepetition clause template placeholder rendered).1,
        (page.updateRepetition clause template placeholder rendered).2.1,
        (page.updateRepetition clause template placeholder rendered).2.2.untracked) := by
  rw [updateRepetition, updateRepetition, listAt_untracked]
  generalize page.listAt clause.list = list
  obtain ⟨values | values, page⟩ := list
  · rfl
  · dsimp only [untracked_host]
    generalize despiteFailures HostTree.destroy rendered page.host = emptied
    exact renderItems_untracked clause.item template emptied.1 values placeholder []
      { page with host := emptied.2 }

theorem updateText_untracked (node : NodeId) (expression : CompiledExpression)
    (shown : Option String) :
    page.untracked.updateText node expression shown =
      ((page.updateText node expression shown).1, (page.updateText node expression shown).2.1,
        (page.updateText node expression shown).2.2.untracked) := by
  rw [updateText, updateText, untracked_state, evaluate_untracked]
  generalize page.evaluate expression page.state.scope = evaluated
  obtain ⟨value, page⟩ := evaluated
  dsimp only
  rw [show page.untracked.textOf value = page.textOf value from rfl]
  split
  · rfl
  · rw [untracked_host]
    cases page.host.setText node (page.textOf value) <;> rfl

theorem updatePresence_untracked (node : NodeId) (expression : CompiledExpression)
    (placeholder : NodeId) (present : Bool) :
    page.untracked.updatePresence node expression placeholder present =
      ((page.updatePresence node expression placeholder present).1,
        (page.updatePresence node expression placeholder present).2.1,
        (page.updatePresence node expression placeholder present).2.2.untracked) := by
  rw [updatePresence, updatePresence, untracked_state, evaluate_untracked]
  generalize page.evaluate expression page.state.scope = evaluated
  obtain ⟨value, page⟩ := evaluated
  dsimp only [editPartly, untracked_host]
  split
  · rfl
  · generalize (page.host.replace _ _) = replaced
    obtain ⟨outcome | outcome, host⟩ := replaced <;> rfl

theorem updateModel_untracked (node : NodeId) (expression : CompiledExpression) :
    page.untracked.updateModel node expression =
      ((page.updateModel node expression).1, (page.updateModel node expression).2.untracked) := by
  rw [updateModel, updateModel, untracked_state, evaluate_untracked]
  generalize page.evaluate expression page.state.scope = evaluated
  obtain ⟨value, page⟩ := evaluated
  dsimp only [untracked_host]
  rw [show page.untracked.textOf value = page.textOf value from rfl]
  cases page.host.value node with
  | error e => rfl
  | ok held =>
    dsimp only
    split
    · rfl
    · exact edit_untracked page _

theorem updateVisibility_untracked (node : NodeId) (expression : CompiledExpression) :
    page.untracked.updateVisibility node expression =
      ((page.updateVisibility node expression).1,
        (page.updateVisibility node expression).2.untracked) := by
  rw [updateVisibility, updateVisibility, untracked_state, evaluate_untracked]
  exact setVisible_untracked _ _ _

theorem updateDirective_untracked (node : NodeId) (directive : Directive) :
    page.untracked.updateDirective node directive =
      ((page.updateDirective node directive).1, (page.updateDirective node directive).2.1,
        (page.updateDirective node directive).2.2.untracked) := by
  cases directive with
  | text e shown => rw [updateDirective, updateDirective, updateText_untracked]
  | visibility e => rw [updateDirective, updateDirective, updateVisibility_untracked]
  | presence e placeholder present =>
    rw [updateDirective, updateDirective, updatePresence_untracked]
  | repetition clause template placeholder rendered =>
    rw [updateDirective, updateDirective, updateRepetition_untracked]
  | model e listener => rw [updateDirective, updateDirective, updateModel_untracked]
  | events listeners => rfl

theorem update_untracked (b : Binding) :
    page.untracked.update b.untracked =
      ((page.update b).1, (page.update b).2.1.untracked, (page.update b).2.2.untracked) := by
  rw [update, update, Binding.untracked]
  dsimp only
  rw [updateDirective_untracked]
  rfl

end Page

/-! ## Mounting -/

namespace Engine

theorem callHandler_untracked (failure : BindingFailure) (e : Engine) (h : ErrorHandler) :
    callHandler failure e.untracked h = (callHandler failure e h).untracked := rfl

theorem capture_untracked (e : Engine) (failure : BindingFailure) :
    e.untracked.capture failure = (e.capture failure).untracked := by
  rw [capture, capture]
  let recorded : Engine :=
    { e with page := e.page.record .bindingUpdateError failure.node failure.describe }
  show e.handlers.entries.foldl (callHandler failure) recorded.untracked =
    (e.handlers.entries.foldl (callHandler failure) recorded).untracked
  exact List.foldl_hom untracked (callHandler_untracked failure)

theorem update_untracked (e : Engine) (b : Binding) :
    e.untracked.update b.untracked =
      ((e.update b).1, (e.update b).2.1.untracked, (e.update b).2.2.untracked) := by
  have hupdate : e.untracked.page.update b.untracked =
      ((e.page.update b).1, (e.page.update b).2.1.untracked, (e.page.update b).2.2.untracked) :=
    e.page.update_untracked b
  rw [update, update, hupdate]
  generalize e.page.update b = updated
  obtain ⟨outcome | outcome, b, page⟩ := updated
  · let failed : Engine := { e with page := page }
    exact congrArg (fun e : Engine => (false, b.untracked, e)) (capture_untracked failed
      (b.failure (page.host.describe b.node) outcome.message))
  · rfl

theorem updateAll_untracked (bs : List Binding) :
    ∀ e : Engine, updateAll (bs.map Binding.untracked) e.untracked =
      ((updateAll bs e).1.map Binding.untracked, (updateAll bs e).2.untracked) := by
  induction bs with
  | nil => exact fun e => rfl
  | cons b bs ih =>
    intro e
    rw [List.map_cons, updateAll, updateAll, update_untracked]
    dsimp only
    rw [ih]
    rfl

theorem mountZones_untracked (e : Engine) (zones : List NodeId) :
    e.untracked.mountZones zones = (e.mountZones zones).untracked := by
  have hscan : zones.foldl (Page.scanZone e.made) (Page.untrackedWith ([], e.page)) =
      Page.untrackedWith (zones.foldl (Page.scanZone e.made) ([], e.page)) :=
    List.foldl_hom Page.untrackedWith (Page.scanZone_untracked e.made)
  cases hscanned : zones.foldl (Page.scanZone e.made) ([], e.page) with
  | mk bs page =>
    have hscan' : zones.foldl (Page.scanZone e.untracked.made) ([], e.untracked.page) =
        (bs.map Binding.untracked, page.untracked) := by
      rw [hscanned] at hscan
      exact hscan
    rw [mountZones, mountZones, hscanned, hscan']
    dsimp only
    rw [List.length_map]
    let started : Engine := { e with page := page, made := e.made + bs.length }
    have hstarted : ({ e.untracked with
        page := page.untracked, made := e.untracked.made + bs.length } : Engine) =
        started.untracked := rfl
    rw [hstarted, updateAll_untracked]
    generalize updateAll bs started = updated
    obtain ⟨bs', e'⟩ := updated
    simp only [untracked, withState, List.length_map, List.map_append]
    rfl

theorem zonesOf_untracked (page : Page) (target : MountTarget) :
    zonesOf page.untracked target = zonesOf page target := by
  cases target <;> rfl

/-- Mounting does the same with and without tracking. -/
theorem mount_untracked (e : Engine) (target : MountTarget) :
    e.untracked.mount target = (e.mount target).untracked := by
  have hzones : zonesOf e.untracked.page target = zonesOf e.page target :=
    zonesOf_untracked e.page target
  rw [mount, mount, hzones]
  cases zonesOf e.page target with
  | error error => rfl
  | ok zones =>
    cases zones with
    | nil => exact mountZones_untracked (e.withState (e.state.log .warn "mount found no zones")) []
    | cons z zones => exact mountZones_untracked e (z :: zones)

end Engine

end ReactiveTemplate
