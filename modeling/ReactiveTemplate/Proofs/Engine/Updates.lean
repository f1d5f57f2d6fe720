import ReactiveTemplate.Proofs.Engine.Slots

/-!
# Updates of bindings

An update of a binding succeeds, makes its place show the state, and leaves the places of the
other bindings as they are.

* `Page.Shows`: the place of a binding shows the state.
* `Page.Ready`: the invariant of pages with bindings.
* `Page.update_spec`: what an update does.
* `Page.Updated.beside`: what the other bindings show.
-/

namespace ReactiveTemplate

variable {config : Config} {t₀ t t' : HostTree Reaction} {bs bs' front back : List Binding}
  {b b' c : Binding} {x p o : NodeId}

/-! ## What bindings show -/

/-- A directive that remembers nothing. -/
def Directive.forget : Directive → Directive
  | .text expression _ => .text expression none
  | .presence expression placeholder _ => .presence expression placeholder true
  | .repetition clause template placeholder _ => .repetition clause template placeholder []
  | directive => directive

/-- A binding that remembers nothing. -/
def Binding.forget (b : Binding) : Binding := { b with directive := b.directive.forget }

/-- The items of a list are shown by copies of a template, one for each in order. -/
def Page.ShowsItems (page : Page) (item : String) (shape : Branch Figure) (copies : List NodeId)
    (values : List Value) : Prop :=
  List.Forall₂ (fun copy value => page.host.Draws copy
    (shape.rendered page.config page.state.heap (.item item value page.state.scope))) copies values

/-- The value of an expression in the state of a page. -/
def Page.value (page : Page) (expression : CompiledExpression) : Value :=
  expression.evaluate page.state.heap page.state.scope

/-- The place of a binding shows the state. A path that leads to no list is nothing to show. -/
def Page.Shows (page : Page) (t₀ : HostTree Reaction) (b : Binding) : Prop :=
  match b.directive with
  | .text expression shown => shown = some (page.textOf (page.value expression))
  | .visibility expression =>
    (page.host.figure b.node).styles.get? "display" =
      if (page.value expression).isTruthy then none else some "none"
  | .presence expression _ present => present = (page.value expression).isTruthy
  | .repetition clause _ _ rendered =>
    ∀ id, resolvePath page.state.heap page.state.scope clause.list = .ok (.array id) →
      ∃ shape, t₀.Draws b.node shape ∧
        page.ShowsItems clause.item shape rendered (page.state.heap.items id)
  | .model expression _ =>
    (page.host.figure b.node).value = page.textOf (page.value expression)
  | .events _ => True

/-- A repetition whose path leads to no list. -/
def Binding.WithoutList (page : Page) (b : Binding) : Prop :=
  ∃ clause template placeholder rendered,
    b.directive = .repetition clause template placeholder rendered ∧
      ∀ id, resolvePath page.state.heap page.state.scope clause.list ≠ .ok (.array id)

/-- The invariant of pages with bindings: document and bindings fit together, nothing of the
    state is being modified, and templates can be rendered. -/
structure Page.Ready (t₀ : HostTree Reaction) (page : Page) (bs : List Binding) : Prop where
  tree : t₀.Tree
  kept : Kept t₀ bs page.host
  declared : Declared page.config t₀ bs
  cache : page.cache.Sound
  unlocked : ∀ c, page.state.heap.isLocked c = false
  plain : ∀ b ∈ bs, ∀ shape, t₀.Draws b.node shape → shape.Plain page.config.showsText

/-- What an update of a binding among others does. -/
structure Page.Updated (t₀ : HostTree Reaction) (page page' : Page) (front back : List Binding)
    (b b' : Binding) : Prop where
  calm : page.Calm page'
  same : b'.forget = b.forget
  kept : Kept t₀ (front ++ b' :: back) page'.host
  spares : Spares t₀ (front ++ b :: back) (front ++ b' :: back) b page.host page'.host
  shows : page'.Shows t₀ b'
  /-- Where there is no list, the copies stay as they are. -/
  idle : b.WithoutList page → b'.rendered = b.rendered ∧ page'.host = page.host

theorem Directive.kind_forget (d : Directive) : d.forget.kind = d.kind := by
  cases d <;> rfl

theorem Binding.kind_forget (b : Binding) : b.forget.kind = b.kind := b.directive.kind_forget

/-- Bindings that differ in what they remember are declared alike. -/
theorem Declared.of_forget (hd : Declared config t₀ bs)
    (hsame : bs'.map Binding.forget = bs.map Binding.forget) : Declared config t₀ bs' := by
  refine hd.of_map ?_
  have hpart : ∀ cs : List Binding, cs.map (fun b => (b.node, b.kind, b.source)) =
      (cs.map Binding.forget).map fun b => (b.node, b.kind, b.source) := by
    intro cs
    rw [List.map_map]
    refine List.map_congr_left fun b _ => ?_
    rw [Function.comp_apply, Binding.kind_forget]
    rfl
  rw [hpart, hsame, ← hpart]

namespace Page

variable {page page' : Page}

/-- The same bindings but for what one remembers. -/
theorem Updated.same_all (h : Updated t₀ page page' front back b b') :
    (front ++ b' :: back).map Binding.forget = (front ++ b :: back).map Binding.forget := by
  rw [List.map_append, List.map_cons, h.same, ← List.map_cons, ← List.map_append]

/-- The nodes of bindings that differ in what they remember. -/
theorem exists_node_of_forget (hsame : bs'.map Binding.forget = bs.map Binding.forget)
    (hb' : b' ∈ bs') : ∃ b ∈ bs, b.node = b'.node := by
  have hmem := List.mem_map_of_mem (f := Binding.forget) hb'
  rw [hsame] at hmem
  obtain ⟨b, hb, heq⟩ := List.mem_map.1 hmem
  have hnode := congrArg Binding.node heq
  exact ⟨b, hb, hnode⟩

theorem Ready.updated (hr : Ready t₀ page (front ++ b :: back))
    (h : Updated t₀ page page' front back b b') : Ready t₀ page' (front ++ b' :: back) := by
  refine ⟨hr.tree, h.kept, ?_, h.calm.cache, ?_, fun c hc shape hdrawn => ?_⟩
  · rw [h.calm.config]
    exact hr.declared.of_forget h.same_all
  · rw [h.calm.heap]
    exact hr.unlocked
  · obtain ⟨d, hd, hnode⟩ := exists_node_of_forget h.same_all hc
    rw [h.calm.config]
    exact hr.plain d hd shape (hnode ▸ hdrawn)

/-- What bindings show depends on document and containers only. -/
theorem shows_of_store (hconfig : page'.config = page.config)
    (hstore : page'.state.store = page.state.store) (hhost : page'.host = page.host) :
    page'.Shows t₀ b ↔ page.Shows t₀ b := by
  unfold Shows ShowsItems textOf value Tracked.scope Tracked.heap
  rw [hstore, hconfig, hhost]

/-- Steps that leave the document alone keep the invariant. -/
theorem Ready.carry (hr : Ready t₀ page bs) (hconfig : page'.config = page.config)
    (hhost : page'.host = page.host) (hcache : page'.cache.Sound)
    (hunlocked : ∀ c, page'.state.heap.isLocked c = false) : Ready t₀ page' bs := by
  constructor
  case tree => exact hr.tree
  case kept =>
    rw [hhost]
    exact hr.kept
  case declared =>
    rw [hconfig]
    exact hr.declared
  case cache => exact hcache
  case unlocked => exact hunlocked
  case plain =>
    rw [hconfig]
    exact hr.plain

/-- Another binding shows after the update what it showed before. -/
theorem Updated.beside (hr : Ready t₀ page (front ++ b :: back))
    (h : Updated t₀ page page' front back b b') (hc : c ∈ front ∨ c ∈ back)
    (hshows : page.Shows t₀ c) : page'.Shows t₀ c := by
  have hcbs : c ∈ front ++ b :: back := mem_of_beside hc
  have hother : b.kind = c.kind → c.node ≠ b.node := fun hkind hnode =>
    hr.declared.ne_of_mem hc hnode hkind.symm
  have hstanding : Standing t₀ (front ++ b' :: back) c.node :=
    (hr.updated h).declared.standing (mem_of_beside hc)
  unfold Shows textOf value at hshows ⊢
  rw [h.calm.heap, h.calm.scope]
  cases hdir : c.directive with
  | text e shown =>
    rw [hdir] at hshows
    exact hshows
  | visibility e =>
    have hkind : c.kind = .visibility := by rw [Binding.kind, hdir]; rfl
    rw [hdir] at hshows
    dsimp only at hshows ⊢
    rw [h.spares.styles c.node hstanding fun hb => hother (hb.trans hkind.symm)]
    exact hshows
  | presence e placeholder present =>
    rw [hdir] at hshows
    exact hshows
  | repetition clause template placeholder rendered =>
    have hkind : c.kind = .repetition := by rw [Binding.kind, hdir]; rfl
    rw [hdir] at hshows
    dsimp only at hshows ⊢
    intro id hid
    obtain ⟨shape, hshape, hcopies⟩ := hshows id hid
    refine ⟨shape, hshape, ?_⟩
    rw [ShowsItems, h.calm.config, h.calm.heap, h.calm.scope]
    refine List.forall₂_iff_zip.2 ⟨hcopies.length_eq, fun {copy value} hmem => ?_⟩
    have hdrawn := (List.forall₂_iff_zip.1 hcopies).2 hmem
    refine h.spares.copies c hcbs (fun hb => hother (hb.trans hkind.symm)) copy ?_ _ hdrawn
    rw [Binding.own, hdir]
    simp [(List.of_mem_zip hmem).1]
  | model e listener =>
    have hkind : c.kind = .model := by rw [Binding.kind, hdir]; rfl
    rw [hdir] at hshows
    dsimp only at hshows ⊢
    rw [h.spares.values c.node hstanding fun hb => hother (hb.trans hkind.symm)]
    exact hshows
  | events listeners => trivial

/-! ## Updates by kind -/

/-- The elements of bindings have the attribute that asked for them. -/
theorem Ready.source? (hr : Ready t₀ page bs) (hb : b ∈ bs) :
    (page.host.figure b.node).source? (page.attributeName b.kind) = some b.source := by
  have hstanding := hr.declared.standing hb
  rw [← hr.declared.source b hb, Figure.source?, Figure.source?, hr.kept.kind _ hstanding,
    hr.kept.attributes _ hstanding]
  rfl

/-- An update that leaves the document alone. -/
theorem Ready.idle (hr : Ready t₀ page (front ++ b :: back)) (hcalm : page.Calm page')
    (hhost : page'.host = page.host) (hshows : page'.Shows t₀ b) :
    Updated t₀ page page' front back b b := by
  refine ⟨hcalm, rfl, ?_, ?_, hshows, fun _ => ⟨rfl, hhost⟩⟩
  · rw [hhost]
    exact hr.kept
  · rw [hhost]
    exact Spares.refl _ _ _ _ _

theorem not_withoutList (hkind : b.kind ≠ .repetition) : ¬ b.WithoutList page := by
  rintro ⟨clause, template, placeholder, rendered, hdir, -⟩
  refine hkind ?_
  rw [Binding.kind, hdir]
  rfl

theorem updateText_spec {e : CompiledExpression} {shown : Option String}
    (hr : Ready t₀ page (front ++ b :: back)) (hdirective : b.directive = .text e shown) :
    ∃ shown' page', page.updateText b.node e shown = (.ok (), shown', page') ∧
      Updated t₀ page page' front back b { b with directive := .text e shown' } := by
  have hb : b ∈ front ++ b :: back := by simp
  have hstanding := hr.declared.standing hb
  obtain ⟨page₁, hevaluate, hcalm, hhost⟩ := evaluate_spec hr.cache e page.state.scope
  let text := (e.evaluate page.state.heap page.state.scope).textContent page.state.heap
  have hcurrent : ∀ host, ({ page₁ with host := host } : Page).Shows t₀
      { b with directive := .text e (some text) } := by
    intro host
    show some text = some ((e.evaluate page₁.state.heap page₁.state.scope).textContent
      page₁.state.heap)
    rw [hcalm.heap, hcalm.scope]
  by_cases hsame : shown = some text
  · refine ⟨shown, page₁, ?_, ?_⟩
    · simp only [updateText, hevaluate, textOf, hcalm.heap]
      exact if_pos hsame
    · have hself : ({ b with directive := .text e shown } : Binding) = b := by rw [← hdirective]
      rw [hself]
      refine hr.idle hcalm hhost ?_
      have hshows := hcurrent page₁.host
      rw [← hsame, hself] at hshows
      exact hshows
  · obtain ⟨n, hn⟩ := hr.kept.stays _ hstanding
    have hsource := hr.source? hb
    rw [HostTree.figure_of_node? hn] at hsource
    obtain ⟨t', hset, htext⟩ := HostTree.setText_spec hr.kept.linked hn
      (HostTree.kind_ne_of_isElement (Figure.isElement_of_source? hsource))
      (fun c hc => hr.kept.not_below_child hr.tree hstanding hc) text
    obtain ⟨hkept, hspares⟩ := hr.kept.setText hr.tree hr.declared hdirective htext
    have hkind : b.kind ≠ .repetition := fun h => by rw [Binding.kind, hdirective] at h; cases h
    refine ⟨some text, { page₁ with host := t' }, ?_, hcalm.withHost t', ?_, hkept, hspares,
      hcurrent t', fun hnone => absurd hnone (not_withoutList hkind)⟩
    · simp only [updateText, hevaluate, textOf, hcalm.heap, hhost]
      rw [if_neg hsame]
      rw [show (e.evaluate page.state.heap page.state.scope).textContent page.state.heap = text
        from rfl, hset]
      rfl
    · rw [Binding.forget, Binding.forget, hdirective]
      rfl

theorem get?_displayed (f : Figure) (visible : Bool) :
    (f.displayed visible).styles.get? "display" = if visible then none else some "none" := by
  rw [Figure.displayed]
  cases visible
  · exact (Fields.get?_insert _ _ _ _).trans (if_pos rfl)
  · exact (Fields.get?_erase _ _ _).trans (if_pos rfl)

theorem updateVisibility_spec {e : CompiledExpression} (hr : Ready t₀ page (front ++ b :: back))
    (hdirective : b.directive = .visibility e) :
    ∃ page', page.updateVisibility b.node e = (.ok (), page') ∧
      Updated t₀ page page' front back b b := by
  have hb : b ∈ front ++ b :: back := by simp
  have hkind : b.kind = .visibility := by rw [Binding.kind, hdirective]; rfl
  obtain ⟨page₁, hevaluate, hcalm, hhost⟩ := evaluate_spec hr.cache e page.state.scope
  let visible := (e.evaluate page.state.heap page.state.scope).isTruthy
  have hlive : page.host.Live b.node := hr.kept.stays _ (hr.declared.standing hb)
  have hretouches : Retouches fun n : Node Reaction =>
      { n with styles := (n.figure.displayed visible).styles } :=
    ⟨fun _ => rfl, fun _ => rfl, fun _ => rfl, fun _ => rfl, fun _ => rfl⟩
  obtain ⟨hkept, hspares⟩ := hr.kept.retouch hr.tree hr.declared hretouches
    (fun hne => absurd hkind hne) fun _ _ => rfl
  refine ⟨{ page₁ with host := page.host.display b.node visible }, ?_, hcalm.withHost _, rfl,
    hkept, hspares, ?_, fun hnone => absurd hnone (not_withoutList (by rw [hkind]; simp))⟩
  · rw [updateVisibility, hevaluate]
    dsimp only
    rw [setVisible_spec (hhost ▸ hlive), hhost]
  · unfold Shows
    rw [hdirective]
    show ((page.host.display b.node visible).figure b.node).styles.get? "display" =
      if (e.evaluate page₁.state.heap page₁.state.scope).isTruthy then none else some "none"
    rw [hcalm.heap, hcalm.scope, HostTree.figure_display hlive, get?_displayed]

theorem updateModel_spec {e : CompiledExpression} {listener : Nat}
    (hr : Ready t₀ page (front ++ b :: back)) (hdirective : b.directive = .model e listener) :
    ∃ page', page.updateModel b.node e = (.ok (), page') ∧
      Updated t₀ page page' front back b b := by
  have hb : b ∈ front ++ b :: back := by simp
  have hkind : b.kind = .model := by rw [Binding.kind, hdirective]; rfl
  obtain ⟨page₁, hevaluate, hcalm, hhost⟩ := evaluate_spec hr.cache e page.state.scope
  let text := (e.evaluate page.state.heap page.state.scope).textContent page.state.heap
  obtain ⟨n, hn⟩ : page.host.Live b.node := hr.kept.stays _ (hr.declared.standing hb)
  have hvalue : page.host.value b.node = .ok n.value := by
    rw [HostTree.value, HostTree.get_of_node? hn]
    rfl
  by_cases hheld : n.value = text
  · refine ⟨page₁, ?_, hr.idle hcalm hhost ?_⟩
    · simp only [updateModel, hevaluate, textOf, hcalm.heap, hhost, hvalue]
      exact if_pos hheld
    · unfold Shows
      rw [hdirective]
      show (page₁.host.figure b.node).value =
        (e.evaluate page₁.state.heap page₁.state.scope).textContent page₁.state.heap
      rw [hcalm.heap, hcalm.scope, hhost, HostTree.figure_of_node? hn]
      exact hheld
  · let change : Node Reaction → Node Reaction := fun n => { n with value := text }
    have hretouches : Retouches change :=
      ⟨fun _ => rfl, fun _ => rfl, fun _ => rfl, fun _ => rfl, fun _ => rfl⟩
    obtain ⟨hkept, hspares⟩ := hr.kept.retouch hr.tree hr.declared hretouches (fun _ _ => rfl)
      (fun hne => absurd hkind hne)
    have hset : page.host.setValue b.node text = .ok (page.host.modify b.node change) := by
      rw [HostTree.setValue, HostTree.update, HostTree.get_of_node? hn]
      rfl
    refine ⟨{ page₁ with host := page.host.modify b.node change }, ?_, hcalm.withHost _, rfl,
      hkept, hspares, ?_, fun hnone => absurd hnone (not_withoutList (by rw [hkind]; simp))⟩
    · simp only [updateModel, hevaluate, textOf, hcalm.heap, hhost, hvalue]
      rw [if_neg hheld]
      rw [show (e.evaluate page.state.heap page.state.scope).textContent page.state.heap = text
        from rfl, hset]
      rfl
    · unfold Shows
      rw [hdirective]
      show ((page.host.modify b.node change).figure b.node).value =
        (e.evaluate page₁.state.heap page₁.state.scope).textContent page₁.state.heap
      rw [hcalm.heap, hcalm.scope]
      rw [HostTree.figure_of_node? (n := change n) (by rw [HostTree.node?_modify_self, hn]; rfl)]
      rfl

/-- What keeps all contents and the shapes of all copies leaves everything to the others. -/
theorem spares_of_content (hcontent : ∀ x, t'.content x = t.content x)
    (hdraws : ∀ c ∈ bs, ∀ o ∈ c.own, ∀ shape, t.Draws o shape → t'.Draws o shape) :
    Spares t₀ bs bs' b t t' :=
  ⟨fun x _ _ => congrArg Figure.styles (HostTree.figure_eq_of_content_eq (hcontent x)),
    fun x _ _ => congrArg Figure.value (HostTree.figure_eq_of_content_eq (hcontent x)),
    fun c hc _ => hdraws c hc, fun x _ => HostTree.listenersOf_eq_of_content_eq (hcontent x),
    HostTree.KeepsListeners.of_content fun x _ => hcontent x⟩

/-- An element and its placeholder change places, whichever of the two is to be shown. -/
theorem Ready.swap {e : CompiledExpression} {placeholder : NodeId} {present : Bool}
    (hr : Ready t₀ page (front ++ b :: back))
    (hdirective : b.directive = .presence e placeholder (!present)) :
    let b' : Binding := { b with directive := .presence e placeholder present }
    ∃ t', page.host.replace (if present then placeholder else b.node)
        (if present then b.node else placeholder) = (.ok (), t') ∧
      Kept t₀ (front ++ b' :: back) t' ∧
      Spares t₀ (front ++ b :: back) (front ++ b' :: back) b page.host t' := by
  intro b'
  let old := if present then placeholder else b.node
  let new := if present then b.node else placeholder
  have hb : b ∈ front ++ b :: back := by simp
  have hb' : b' ∈ front ++ b' :: back := by simp
  have hforget : b'.forget = b.forget := by
    rw [Binding.forget, Binding.forget, hdirective]
    rfl
  have hown : b.own = [placeholder] := by rw [Binding.own, hdirective]
  have hunfilled : b.filled? = none := by rw [Binding.filled?, hdirective]
  have hold : occupants (front ++ b :: back) b.node = [old] := by
    refine hr.declared.occupants_of_mem hb ?_
    rw [Binding.occupants?, hdirective]
    dsimp only [old]
    cases present <;> rfl
  have hfree : page.host.parent? new = none := by
    refine hr.kept.aside b hb new ?_
    rw [Binding.aside, hdirective]
    dsimp only [new]
    cases present <;> simp
  have hd' : Declared page.config t₀ (front ++ b' :: back) :=
    hr.declared.of_forget (by simp [hforget])
  have hnew : new = b'.node ∨ new ∈ b'.own := by
    dsimp only [new]
    cases present
    · exact .inr (by simp [Binding.own, b'])
    · exact .inl rfl
  have hmade : ∀ o ∈ b'.own, (page.host.Live o ∧ ¬ Standing t₀ (front ++ b :: back) o) ∧
      (page.host.parent? o = none ∨ page.host.parent? o = t₀.parent? b'.node) := by
    intro o ho
    have ho' : o ∈ b.own := by rwa [hown]
    exact ⟨hr.kept.made b hb o ho', hr.kept.ownAbove b hb o ho'⟩
  have hdistinct : ((front ++ b' :: back).flatMap Binding.own).Nodup := by
    have hdistinct := hr.kept.distinct
    simp only [List.flatMap_append, List.flatMap_cons, hown] at hdistinct ⊢
    exact hdistinct
  have haside : ∀ o ∈ b'.aside, o = old ∨ o ≠ new ∧ page.host.parent? o = none :=
    fun o ho => .inl (List.mem_singleton.1 ho)
  obtain ⟨t', hreplace, hkept, hcontent, hdraws⟩ := hr.kept.exchange hr.tree
    ⟨hd', hb', fun c hc => (mem_replace hc).imp_right mem_of_beside,
      fun x => ⟨Filled.of_replace rfl, Filled.of_replace hunfilled⟩,
      fun x hx => occupants_replace (d := b') rfl (.inl hx), hold, rfl, hnew, hfree, hmade,
      hdistinct, haside, by simp⟩
  exact ⟨t', hreplace, hkept,
    spares_of_content hcontent fun c hc o ho => hdraws o (hr.kept.made c hc o ho).2⟩

theorem updatePresence_spec {e : CompiledExpression} {placeholder : NodeId} {present : Bool}
    (hr : Ready t₀ page (front ++ b :: back))
    (hdirective : b.directive = .presence e placeholder present) :
    ∃ present' page', page.updatePresence b.node e placeholder present =
        (.ok (), present', page') ∧
      Updated t₀ page page' front back b
        { b with directive := .presence e placeholder present' } := by
  obtain ⟨page₁, hevaluate, hcalm, hhost⟩ := evaluate_spec hr.cache e page.state.scope
  let visible := (e.evaluate page.state.heap page.state.scope).isTruthy
  have hcurrent : ∀ host, ({ page₁ with host := host } : Page).Shows t₀
      { b with directive := .presence e placeholder visible } := by
    intro host
    show visible = (e.evaluate page₁.state.heap page₁.state.scope).isTruthy
    rw [hcalm.heap, hcalm.scope]
  by_cases hsame : visible = present
  · refine ⟨present, page₁, ?_, ?_⟩
    · simp only [updatePresence, hevaluate]
      exact if_pos hsame
    · have hself : ({ b with directive := .presence e placeholder present } : Binding) = b := by
        rw [← hdirective]
      rw [hself]
      refine hr.idle hcalm hhost ?_
      have hshows := hcurrent page₁.host
      rw [hsame, hself] at hshows
      exact hshows
  · have hpresent : present = !visible := by
      revert hsame
      cases visible <;> cases present <;> simp
    obtain ⟨t', hreplace, hkept, hspares⟩ := hr.swap (hpresent ▸ hdirective)
    have hkind : b.kind ≠ .repetition := fun h => by rw [Binding.kind, hdirective] at h; cases h
    have hforget : ({ b with directive := .presence e placeholder visible } : Binding).forget =
        b.forget := by
      rw [Binding.forget, Binding.forget, hdirective]
      rfl
    refine ⟨visible, { page₁ with host := t' }, ?_, hcalm.withHost t', hforget, hkept, hspares,
      hcurrent t', fun hnone => absurd hnone (not_withoutList hkind)⟩
    simp only [updatePresence, hevaluate]
    rw [if_neg hsame]
    have hpair : (if (e.evaluate page.state.heap page.state.scope).isTruthy = true
        then (placeholder, b.node) else (b.node, placeholder)) =
        (if visible then placeholder else b.node, if visible then b.node else placeholder) := by
      show (if visible = true then (placeholder, b.node) else (b.node, placeholder)) = _
      cases visible <;> rfl
    rw [hpair]
    dsimp only
    rw [hhost, hreplace]
    rfl

/-- The items that the list of a binding has, and no note of a reason why not. -/
theorem Ready.listAt_spec (hr : Ready t₀ page bs) (path : Path) :
    (∃ id, resolvePath page.state.heap page.state.scope path = .ok (.array id) ∧
      page.listAt path = (some (page.state.heap.items id), page)) ∨
      (∀ id, resolvePath page.state.heap page.state.scope path ≠ .ok (.array id)) ∧
        ∃ page', page.listAt path = (none, page') ∧ page.Calm page' ∧ page'.host = page.host := by
  rw [listAt]
  cases hresolve : resolvePath page.state.heap page.state.scope path with
  | error e => exact .inr ⟨nofun, _, rfl, ⟨rfl, rfl, rfl, hr.cache⟩, rfl⟩
  | ok value =>
    cases value with
    | array id =>
      refine .inl ⟨id, rfl, ?_⟩
      simp only [hr.unlocked]
      rfl
    | _ => exact .inr ⟨nofun, _, rfl, ⟨rfl, rfl, rfl, hr.cache⟩, rfl⟩

/-- Of a list without repetitions, what remains around some neighbours. -/
theorem filter_slot {left right gone : List NodeId} (hnodup : (left ++ x :: (gone ++ right)).Nodup) :
    (left ++ x :: (gone ++ right)).filter (· ∉ gone) = left ++ x :: right := by
  rw [List.nodup_append, List.nodup_cons, List.nodup_append] at hnodup
  obtain ⟨-, ⟨hx, -, -, hright⟩, hleft⟩ := hnodup
  have hkeep : ∀ l : List NodeId, (∀ y ∈ l, y ∉ gone) → l.filter (· ∉ gone) = l := fun l hl =>
    List.filter_eq_self.2 fun y hy => by simpa using hl y hy
  have hdrop : gone.filter (· ∉ gone) = [] := List.filter_eq_nil_iff.2 fun y hy => by simpa using hy
  have hxgone : x ∉ gone := fun hmem => hx (List.mem_append_left _ hmem)
  rw [List.filter_append, List.filter_cons_of_pos (by simpa using hxgone), List.filter_append, hdrop,
    List.nil_append, hkeep left fun y hy hmem => hleft y hy y (by simp [hmem]) rfl,
    hkeep right fun y hy hmem => hright y hmem y hy rfl]

/-- Copies that are placed where those before them have been destroyed refill the slot. -/
theorem ItemsPlaced.refilled {gone copies left right : List NodeId} {values : List Value}
    {shapeOf : Value → Branch Figure} {placeholder : NodeId} (h₁ : page.host.Destroyed t p gone)
    (h : ItemsPlaced { page with host := t } page' p shapeOf copies values)
    (hchildren : page'.host.children p = left ++ placeholder :: (copies ++ right)) :
    Refilled page.host page'.host p placeholder gone copies left right := by
  have hlive : ∀ y, page.host.Live y → (∀ r ∈ gone, ¬ page.host.Below r y) → t.Live y := by
    intro y hy hout
    by_cases hyp : y = p
    · rw [hyp] at hy ⊢
      exact hy.of_content h₁.content
    · exact hy.of_node? (h₁.kept y hyp hout)
  refine ⟨h.linked, fun y hy hyp hout => ?_, h.content.trans h₁.content,
    h.parent.trans h₁.parent, hchildren, fun x hx y hbelow hy => ?_,
    (HostTree.KeepsListeners.of_content h₁.rest).trans h.listeners⟩
  · exact (h.kept y (hlive y hy hout) hyp).trans (h₁.kept y hyp hout)
  · by_contra hout
    exact h.new x hx y hbelow (hlive y hy fun r hr hry => hout ⟨r, hr, hry⟩)

/-- The template of a list is as it was when the copies are gone, and away from their place. -/
theorem Ready.template_spared {clause : ForClause} {template placeholder : NodeId}
    {rendered : List NodeId} (hr : Ready t₀ page bs) (hb : b ∈ bs)
    (hdirective : b.directive = .repetition clause template placeholder rendered)
    (hp : Standing t₀ bs p) (hgone : ∀ r ∈ rendered, CutOff t₀ page.host bs bs p r)
    (h₁ : page.host.Destroyed t p rendered) :
    ∃ d : Branch NodeId, t.Holds d ∧ d.label = template ∧ t₀.Draws b.node (d.map t.figure) ∧
      p ∉ d.labels := by
  have hown : b.own = template :: placeholder :: rendered := by rw [Binding.own, hdirective]
  have htop : template ∈ b.own := by rw [hown]; simp
  have hfresh : template ∉ rendered := by
    have hnodup := (List.nodup_flatMap.1 hr.kept.distinct).1 b hb
    rw [hown, List.nodup_cons, List.mem_cons, not_or] at hnodup
    exact hnodup.1.2
  have hbelow : ∀ y, page.host.Below template y → y ≠ p := by
    rintro y hy rfl
    exact hr.kept.not_below_of_own hr.tree hb htop hp hy
  obtain ⟨shape, hshape, htemplate⟩ := hr.kept.templates b hb _ _ _ _ hdirective
  obtain ⟨d, hd, hlabel, rfl⟩ := htemplate.frame fun y hy => h₁.kept y (hbelow y hy) fun r hrr => by
    refine (hgone r hrr).own hr.kept hr.tree hr.declared hb htop ?_ hy
    rintro rfl
    exact hfresh hrr
  refine ⟨d, hd, hlabel, hshape, fun hmem => ?_⟩
  have hbelow' := HostTree.Below.mono h₁.fewer (hd.mem_labels_iff.1 hmem)
  rw [hlabel] at hbelow'
  exact hbelow p hbelow' rfl

theorem updateRepetition_spec {clause : ForClause} {template placeholder : NodeId}
    {rendered : List NodeId} (hr : Ready t₀ page (front ++ b :: back))
    (hdirective : b.directive = .repetition clause template placeholder rendered) :
    ∃ copies page', page.updateRepetition clause template placeholder rendered =
        (.ok (), copies, page') ∧
      Updated t₀ page page' front back b
        { b with directive := .repetition clause template placeholder copies } := by
  let bs := front ++ b :: back
  have hb : b ∈ bs := by simp [bs]
  have hkind : b.kind = .repetition := by rw [Binding.kind, hdirective]; rfl
  rcases hr.listAt_spec clause.list with ⟨id, hid, hlist⟩ | ⟨hnone, page₁, hlist, hcalm, hhost⟩
  · have hown : b.own = template :: placeholder :: rendered := by rw [Binding.own, hdirective]
    have hoccupants : b.occupants? = some (placeholder :: rendered) := by
      rw [Binding.occupants?, hdirective]
    obtain ⟨p, hp⟩ := hr.declared.hooked b hb (.inr hkind)
    have hstanding := hr.declared.standing hb
    have hpstanding := (hstanding.parent hr.tree hp).1
    obtain ⟨left, right, hsplit, hleft, hright, hchildren⟩ := hr.kept.slot hr.tree hstanding hp
    rw [hr.declared.occupants_of_mem hb hoccupants, List.cons_append] at hchildren
    have hslots := hr.kept.linked.nodup p
    rw [hchildren] at hslots
    have hnodup : rendered.Nodup := by
      rw [List.nodup_append, List.nodup_cons, List.nodup_append] at hslots
      exact hslots.2.1.2.1
    have hgone : ∀ r ∈ rendered, CutOff t₀ page.host bs bs p r := fun r hrr =>
      hr.kept.cutOff hr.tree hr.declared hb (by rw [hown]; simp [hrr])
        (hr.kept.linked.child (by rw [hchildren]; simp [hrr]))
    -- The old copies go, the placeholder and the template stay.
    obtain ⟨t₁, hdestroy, h₁⟩ := HostTree.destroyAll_spec hr.kept.linked hnodup fun r hrr =>
      ⟨by rw [hchildren]; simp [hrr], (hgone r hrr).free p hpstanding⟩
    have hchildren₁ : t₁.children p = left.flatMap (occupants bs) ++
        placeholder :: right.flatMap (occupants bs) := by
      rw [h₁.children, hchildren]
      exact filter_slot hslots
    obtain ⟨d, hd, rfl, hshape, hpout⟩ :=
      hr.template_spared hb hdirective hpstanding hgone h₁
    have hlasting : (d.map t₁.figure).Lasting page.config := (hr.plain b hb _ hshape).lasting
    have hcache : ({ page with host := t₁ } : Page).cache.Sound := hr.cache
    obtain ⟨page', copies, hrender, hchildren', h'⟩ := renderItems_spec clause.item none hlasting
      hpout (page.state.heap.items id) [] hcache h₁.linked rfl rfl rfl hd rfl hchildren₁
    have hcalm : page.Calm page' := h'.calm.afterHost
    have hrestocked : Restocked page.config t₀ page.host page'.host front back b
        { b with directive := .repetition clause d.label placeholder copies } clause d.label
        placeholder p rendered copies left right :=
      ⟨hr.tree, hr.kept, hr.declared, hdirective, rfl, hsplit, hleft, hright, hchildren,
        h'.refilled h₁ hchildren'⟩
    refine ⟨copies, page', ?_, hcalm, ?_, hrestocked.kept_after, hrestocked.spares,
      fun id' hid' => ?_, fun hnone => ?_⟩
    · rw [updateRepetition, hlist]
      dsimp only
      rw [hdestroy]
      dsimp only
      rw [hrender]
      rfl
    · rw [Binding.forget, Binding.forget, hdirective]
      rfl
    · rw [hcalm.heap, hcalm.scope, hid] at hid'
      obtain rfl : id = id' := by simpa using hid'
      refine ⟨d.map t₁.figure, hshape, ?_⟩
      rw [ShowsItems, hcalm.config, hcalm.heap, hcalm.scope]
      exact h'.drawn
    · obtain ⟨clause', template', placeholder', rendered', hdir, hnolist⟩ := hnone
      rw [hdirective] at hdir
      obtain ⟨rfl, -⟩ := Directive.repetition.inj hdir
      exact absurd hid (hnolist id)
  · refine ⟨rendered, page₁, ?_, ?_⟩
    · rw [updateRepetition, hlist]
    · have hself : ({ b with directive := .repetition clause template placeholder rendered } :
          Binding) = b := by rw [← hdirective]
      rw [hself]
      refine hr.idle hcalm hhost ?_
      unfold Shows
      rw [hdirective]
      intro id hid
      rw [hcalm.heap, hcalm.scope] at hid
      exact absurd hid (hnone id)

/-- An update of a binding succeeds, and its place shows the state afterwards. -/
theorem update_spec (hr : Ready t₀ page (front ++ b :: back)) :
    ∃ b' page', page.update b = (.ok (), b', page') ∧ Updated t₀ page page' front back b b' := by
  rw [update]
  cases hdirective : b.directive with
  | text e shown =>
    obtain ⟨shown', page', hupdate, h⟩ := updateText_spec hr hdirective
    refine ⟨_, page', ?_, h⟩
    rw [updateDirective, hupdate]
  | visibility e =>
    obtain ⟨page', hupdate, h⟩ := updateVisibility_spec hr hdirective
    refine ⟨b, page', ?_, h⟩
    rw [updateDirective, hupdate, ← hdirective]
  | presence e placeholder present =>
    obtain ⟨present', page', hupdate, h⟩ := updatePresence_spec hr hdirective
    refine ⟨_, page', ?_, h⟩
    rw [updateDirective, hupdate]
  | repetition clause template placeholder rendered =>
    obtain ⟨copies, page', hupdate, h⟩ := updateRepetition_spec hr hdirective
    refine ⟨_, page', ?_, h⟩
    rw [updateDirective, hupdate]
  | model e listener =>
    obtain ⟨page', hupdate, h⟩ := updateModel_spec hr hdirective
    refine ⟨b, page', ?_, h⟩
    rw [updateDirective, hupdate, ← hdirective]
  | events listeners =>
    refine ⟨b, page, ?_, hr.idle (Calm.refl hr.cache) rfl ?_⟩
    · rw [updateDirective, ← hdirective]
    · unfold Shows
      rw [hdirective]
      trivial

end Page

end ReactiveTemplate
