import ReactiveTemplate.Engine.Scan
import ReactiveTemplate.Proofs.Document.Copies
import ReactiveTemplate.Proofs.Engine.Additions
import ReactiveTemplate.Proofs.Engine.Pages

/-!
# Registration of bindings

Making the binding of a declaration succeeds, and keeps the invariant of pages whose bindings
are being made. A malformed attribute makes no binding.

* `Page.Registered`: what registering a declaration does.
* `Page.registerPresence_spec`, `Page.registerRepetition_spec` and others: each kind.
* `Page.register_spec`: all kinds.
-/

namespace ReactiveTemplate

variable {config : Config} {t₀ t t' : HostTree Reaction} {bs : List Binding} {b c : Binding}
  {d : Declaration} {x y p o : NodeId}

/-- The binding of a declaration. -/
def Draft.binding (draft : Draft) (config : Config) (id : Nat) (d : Declaration) : Binding :=
  ⟨id, d.node, d.text, draft.directive, if config.trackDependencies then some draft.reads else none⟩

theorem Draft.covers (draft : Draft) (config : Config) (id : Nat) (d : Declaration)
    {paths : List String} (h : ∀ path ∈ paths, path ∈ draft.reads) :
    (draft.binding config id d).Covers paths := by
  intro reads hreads
  rw [binding] at hreads
  dsimp only at hreads
  split at hreads
  · rw [← Option.some.inj hreads]
    exact h
  · cases hreads

theorem Draft.declaration (draft : Draft) (hkind : draft.directive.kind = d.kind) (config : Config)
    (id : Nat) : (draft.binding config id d).declaration = d := by
  rw [Binding.declaration, Binding.kind, binding, hkind]

namespace Page

variable {page page' : Page}

/-- What registering a declaration does. -/
structure Registered (t₀ : HostTree Reaction) (page page' : Page) (bs : List Binding)
    (d : Declaration) (made : Option Binding) : Prop where
  calm : page.Calm page'
  next : page'.Registering t₀ (bs ++ made.toList)
  declaration : ∀ b, made = some b → b.declaration = d

/-- A declaration that a binding can be made for next. -/
structure Registrable (t₀ : HostTree Reaction) (page : Page) (bs : List Binding)
    (d : Declaration) : Prop where
  ready : page.Registering t₀ bs
  plan : Plan page.config t₀ (bs.map Binding.declaration ++ [d])

namespace Registrable

theorem declared (h : Registrable t₀ page bs d) : Declared page.config t₀ bs :=
  h.plan.declared (List.sublist_append_left _ _)

theorem declared_append (h : Registrable t₀ page bs d) (hb : b.declaration = d) :
    Declared page.config t₀ (bs ++ [b]) := by
  refine h.plan.declared ?_
  rw [List.map_append, List.map_singleton, hb]

theorem live (h : Registrable t₀ page bs d) : t₀.Live d.node := by
  have hsource := h.plan.source d (by simp)
  exact HostTree.live_of_source? hsource

theorem standing (h : Registrable t₀ page bs d) (hx : t₀.Live x) : Standing t₀ bs x :=
  standing_of_unfilled h.ready.fresh hx

/-- Another binding of the node is of another kind. -/
theorem kind_ne (h : Registrable t₀ page bs d) (hc : c ∈ bs) (hnode : c.node = d.node) :
    c.kind ≠ d.kind := by
  intro hkind
  have honce := h.plan.once
  rw [List.map_append, List.nodup_append] at honce
  refine honce.2.2 (c.node, c.kind) ?_ (d.node, d.kind) (by simp) (by rw [hnode, hkind])
  rw [List.map_map]
  exact List.mem_map.2 ⟨c, hc, rfl⟩

/-- No binding takes care of the slot that the next one takes care of. -/
theorem occupants_self (h : Registrable t₀ page bs d)
    (hkind : d.kind = .presence ∨ d.kind = .repetition) : occupants bs d.node = [d.node] := by
  refine occupants_of_not_mem fun c hc hnode => ?_
  cases hos : c.occupants? with
  | none => rfl
  | some os =>
    have hcd : c.declaration ∈ bs.map Binding.declaration ++ [d] :=
      List.mem_append_left _ (List.mem_map_of_mem hc)
    refine absurd ?_ (h.kind_ne hc hnode)
    rcases Binding.kind_of_occupants? hos with hck | hck
    · rcases hkind with hdk | hdk
      · exact hck.trans hdk.symm
      · have hkind' := h.plan.alone d (by simp) _ hcd hnode.symm hdk
        exact (show c.kind = .repetition from hkind').trans hdk.symm
    · have hkind' := h.plan.alone _ hcd d (by simp) hnode hck
      exact hck.trans hkind'.symm

/-- Registering without a binding. -/
theorem skip (h : Registrable t₀ page bs d) (hcalm : page.Calm page')
    (hhost : page'.host = page.host) : Registered t₀ page page' bs d none := by
  have hr := h.ready
  refine ⟨hcalm, ?_, nofun⟩
  rw [Option.toList_none, List.append_nil]
  refine ⟨hr.tree, ?_, hcalm.cache, hr.fresh, hr.bare, ?_, ?_, ?_, ?_⟩
  · rw [hhost]
    exact hr.kept
  · rw [hhost]
    exact hr.pristine
  · rw [hcalm.config]
    exact hr.asked
  · rw [hhost]
    exact hr.heard
  · rw [hhost]
    exact hr.grammatical

theorem heard_append (h : Registrable t₀ page bs d) (hb : b.node = d.node)
    (hkept : ∀ y, y ≠ d.node → t'.listenersOf y = [] ∨
      t'.listenersOf y = page.host.listenersOf y) :
    ∀ y, (∃ c ∈ bs ++ [b], c.node = y) ∨ t'.listenersOf y = [] ∨
      t'.listenersOf y = t₀.listenersOf y := by
  intro y
  by_cases hy : y = d.node
  · exact .inl ⟨b, by simp, hb.trans hy.symm⟩
  · rcases hkept y hy with hempty | hsame
    · exact .inr (.inl hempty)
    · rw [hsame]
      refine (h.ready.heard y).imp_left ?_
      rintro ⟨c, hc, hnode⟩
      exact ⟨c, List.mem_append_left _ hc, hnode⟩

theorem asked_append (h : Registrable t₀ page bs d) (hcalm : page.Calm page')
    (hb : b.AskedFor page.config t₀) : ∀ c ∈ bs ++ [b], c.AskedFor page'.config t₀ := by
  intro c hc
  rw [hcalm.config]
  rcases List.mem_append.1 hc with hc | hc
  · exact h.ready.asked c hc
  · rw [List.mem_singleton.1 hc]
    exact hb

theorem fresh_append (h : Registrable t₀ page bs d) (hb : b.filled? = none) :
    ∀ c ∈ bs ++ [b], c.filled? = none := by
  intro c hc
  rcases List.mem_append.1 hc with hc | hc
  · exact h.ready.fresh c hc
  · rw [List.mem_singleton.1 hc]
    exact hb

theorem bare_append (h : Registrable t₀ page bs d) (hb : b.rendered = []) :
    ∀ c ∈ bs ++ [b], c.rendered = [] := by
  intro c hc
  rcases List.mem_append.1 hc with hc | hc
  · exact h.ready.bare c hc
  · rw [List.mem_singleton.1 hc]
    exact hb

/-- Registering a binding that is still empty. -/
theorem made (h : Registrable t₀ page bs d) (hcalm : page.Calm page') (hb : b.declaration = d)
    (hfilled : b.filled? = none) (hrendered : b.rendered = [])
    (hasked : b.AskedFor page.config t₀) (hkept : Kept t₀ (bs ++ [b]) page'.host)
    (hpristine : ∀ x, t₀.Live x → page'.host.figure x = t₀.figure x)
    (hlisteners : ∀ y, y ≠ d.node → page'.host.listenersOf y = [] ∨
      page'.host.listenersOf y = page.host.listenersOf y)
    (hgrammatical : page'.host.Grammatical) : Registered t₀ page page' bs d (some b) := by
  refine ⟨hcalm, ⟨h.ready.tree, hkept, hcalm.cache, h.fresh_append hfilled,
    h.bare_append hrendered, hpristine, h.asked_append hcalm hasked,
    h.heard_append (congrArg Declaration.node hb) hlisteners, hgrammatical⟩, ?_⟩
  rintro _ ⟨⟩
  exact hb

/-- Registering a binding that makes no nodes. -/
theorem plain (h : Registrable t₀ page bs d) (hcalm : page.Calm page')
    (hres : page.host.Resembles page'.host)
    (hkept : ∀ x, x ≠ d.node → page'.host.node? x = page.host.node? x)
    (hgrammatical : page'.host.Grammatical) (hb : b.declaration = d) (hfilled : b.filled? = none)
    (hown : b.own = []) (hoccupants : b.occupants? = none) (haside : b.aside = [])
    (hasked : b.AskedFor page.config t₀) : Registered t₀ page page' bs d (some b) := by
  have hr := h.ready
  have hkept' := hr.kept.resembles h.declared hr.fresh hres
  have hrendered : b.rendered = [] := by
    rw [Binding.rendered]
    rw [Binding.own] at hown
    cases hdir : b.directive with
    | repetition clause template placeholder rendered =>
      rw [hdir] at hown
      cases hown
    | _ => rfl
  refine h.made hcalm hb hfilled hrendered hasked ?_ (fun x hx => ?_) (fun y hy => .inr ?_)
    hgrammatical
  · refine hkept'.add hfilled ?_ (.inl hoccupants) (by rw [hown]; simp) ?_
      (by rw [haside]; simp)
    · intro hkind
      rw [Binding.kind] at hkind
      rw [Binding.occupants?] at hoccupants
      cases hdir : b.directive with
      | repetition clause template placeholder rendered =>
        rw [hdir] at hoccupants
        cases hoccupants
      | _ =>
        rw [hdir] at hkind
        cases hkind
    · exact nodup_own_append hr.kept.distinct (by rw [hown]; exact List.nodup_nil)
        (by rw [hown]; simp)
  · rw [hres.figure x (hr.kept.stays x (h.standing hx))]
    exact hr.pristine x hx
  · rw [HostTree.listenersOf, HostTree.listenersOf, hkept y hy]

end Registrable

/-! ## Expressions -/

/-- A binding shows the expression that it was asked for. -/
theorem askedFor_of_expression {e : CompiledExpression}
    (hdirective : (∃ shown, b.directive = .text e shown) ∨ b.directive = .visibility e ∨
      (∃ placeholder present, b.directive = .presence e placeholder present) ∨
        ∃ listener, b.directive = .model e listener)
    (he : e = .compile b.source) (hcovers : b.Covers e.dependencies) : b.AskedFor config t₀ := by
  unfold Binding.AskedFor
  rcases hdirective with ⟨_, hdir⟩ | hdir | ⟨_, _, hdir⟩ | ⟨_, hdir⟩ <;> rw [hdir] <;>
    exact ⟨he, hcovers⟩

theorem registerExpression_spec (h : Registrable t₀ page bs d) (id : Nat)
    (hkind : d.kind = .bind ∨ d.kind = .visibility) :
    ∃ draft page', page.registerExpression d.kind d.text = (draft, page') ∧
      Registered t₀ page page' bs d (some (draft.binding page.config id d)) := by
  obtain ⟨page', hcompile, hcalm, hhost⟩ := compile_spec h.ready.cache d.text .state
  have hres : page.host.Resembles page'.host := by
    rw [hhost]
    exact HostTree.Resembles.of_kept h.ready.kept.linked fun _ _ => rfl
  obtain ⟨e, he⟩ : ∃ e, e = CompiledExpression.compile d.text := ⟨_, rfl⟩
  rw [← he] at hcompile
  have hmade : ∀ draft : Draft, draft.reads = e.dependencies →
      draft.directive = .text e none ∨ draft.directive = .visibility e →
      draft.directive.kind = d.kind →
        Registered t₀ page page' bs d (some (draft.binding page.config id d)) := by
    rintro ⟨directive, reads⟩ rfl hdirective hsame
    have hcovers : (Draft.binding ⟨directive, e.dependencies⟩ page.config id d).Covers
        e.dependencies := Draft.covers _ _ _ _ fun _ hpath => hpath
    have hasked : (Draft.binding ⟨directive, e.dependencies⟩ page.config id d).AskedFor
        page.config t₀ :=
      askedFor_of_expression (hdirective.imp (fun h => ⟨none, h⟩) .inl) he hcovers
    have hgrammatical : page'.host.Grammatical := by
      rw [hhost]
      exact h.ready.grammatical
    refine h.plain hcalm hres (fun x _ => by rw [hhost]) hgrammatical
      (Draft.declaration _ hsame _ _) ?_ ?_ ?_ ?_ hasked
    all_goals rcases hdirective with hdir | hdir <;> cases hdir <;> rfl
  rcases hkind with hkind | hkind
  · refine ⟨⟨.text e none, e.dependencies⟩, page', ?_, hmade _ rfl (.inl rfl) hkind.symm⟩
    rw [registerExpression, hcompile, hkind]
  · refine ⟨⟨.visibility e, e.dependencies⟩, page', ?_, hmade _ rfl (.inr rfl) hkind.symm⟩
    rw [registerExpression, hcompile, hkind]

/-! ## Elements in their place -/

theorem listenersOf_mono {s s' s'' : HostTree Reaction}
    (h : ∀ y, s'.listenersOf y = [] ∨ s'.listenersOf y = s.listenersOf y)
    (h' : ∀ y, s''.listenersOf y = [] ∨ s''.listenersOf y = s'.listenersOf y) (y : NodeId) :
    s''.listenersOf y = [] ∨ s''.listenersOf y = s.listenersOf y := by
  rcases h' y with hempty | hsame
  · exact .inl hempty
  · rw [hsame]
    exact h y

/-- A node that was made for a binding and is put nowhere yet. -/
structure SetAside (t₀ : HostTree Reaction) (bs : List Binding) (t : HostTree Reaction)
    (o : NodeId) : Prop where
  live : t.Live o
  apart : ¬ Standing t₀ bs o
  free : t.parent? o = none

section Presence

variable {e : CompiledExpression} {placeholder : NodeId} {reads : List String} {id : Nat}

theorem Registrable.distinct_presence (h : Registrable t₀ page bs d)
    (hnew : ¬ page.host.Live placeholder) (present : Bool) :
    let draft : Draft := ⟨.presence e placeholder present, reads⟩
    ((bs ++ [draft.binding page.config id d]).flatMap Binding.own).Nodup := by
  refine nodup_own_append h.ready.kept.distinct (List.nodup_singleton placeholder) ?_
  intro o ho c hc hoc
  rw [List.mem_singleton.1 ho] at hoc
  exact hnew (h.ready.kept.made c hc placeholder hoc).1

/-- An element that is shown stays where it is, and its placeholder is kept aside. -/
theorem Registrable.keep (h : Registrable t₀ page bs d) (hkept : Kept t₀ bs t)
    (hplaceholder : SetAside t₀ bs t placeholder) (hnew : ¬ page.host.Live placeholder) :
    let draft : Draft := ⟨.presence e placeholder true, reads⟩
    Kept t₀ (bs ++ [draft.binding page.config id d]) t := by
  refine hkept.add rfl nofun (.inr rfl) (fun o ho => ?_) (h.distinct_presence hnew true)
    fun o ho => ?_
  · rw [List.mem_singleton.1 ho]
    exact ⟨⟨hplaceholder.live, hplaceholder.apart⟩, hplaceholder.free⟩
  · rw [List.mem_singleton.1 ho]
    exact hplaceholder.free

/-- The placeholder takes the place of an element that is not shown. -/
theorem Registrable.standIn (h : Registrable t₀ page bs d) (hkind : d.kind = .presence)
    (hkept : Kept t₀ bs t) (hplaceholder : SetAside t₀ bs t placeholder)
    (hnew : ¬ page.host.Live placeholder) :
    let draft : Draft := ⟨.presence e placeholder false, reads⟩
    ∃ t', t.replace d.node placeholder = (.ok (), t') ∧
      Kept t₀ (bs ++ [draft.binding page.config id d]) t' ∧
      ∀ x, t'.content x = t.content x := by
  intro draft
  let b := draft.binding page.config id d
  have hown : b.own = [placeholder] := rfl
  have hdeclaration : b.declaration = d := draft.declaration hkind.symm page.config id
  have hmade : ∀ o ∈ b.own, (t.Live o ∧ ¬ Standing t₀ bs o) ∧
      (t.parent? o = none ∨ t.parent? o = t₀.parent? b.node) := by
    intro o ho
    rw [List.mem_singleton.1 ho]
    exact ⟨⟨hplaceholder.live, hplaceholder.apart⟩, .inl hplaceholder.free⟩
  obtain ⟨t', hreplace, hkept', hcontent, -⟩ := hkept.exchange h.ready.tree
    ⟨h.declared_append hdeclaration, List.mem_append_right _ (List.mem_singleton_self b),
      fun c hc => (List.mem_append.1 hc).symm.imp_left List.mem_singleton.1,
      fun x => filled_append rfl, fun x hx => occupants_append_of_ne hx,
      h.occupants_self (.inl hkind), rfl, .inr (by rw [hown]; simp), hplaceholder.free, hmade,
      h.distinct_presence hnew false, fun o ho => .inl (List.mem_singleton.1 ho),
      fun _ _ _ _ h => by cases h⟩
  exact ⟨t', hreplace, hkept', hcontent⟩

end Presence

theorem registerPresence_spec (h : Registrable t₀ page bs d) (id : Nat)
    (hkind : d.kind = .presence) :
    ∃ draft page', page.registerPresence d.node d.text = (.ok draft, page') ∧
      Registered t₀ page page' bs d (some (draft.binding page.config id d)) := by
  have hr := h.ready
  obtain ⟨e, he⟩ : ∃ e, e = CompiledExpression.compile d.text := ⟨_, rfl⟩
  obtain ⟨page₁, hcompile, hcalm₁, hhost₁⟩ := compile_spec hr.cache d.text .state
  rw [← he] at hcompile
  obtain ⟨placeholder, t₁, hcreate, hres, hnew, hlive, hfree, hquiet⟩ :=
    HostTree.createPlaceholder_spec hr.kept.linked (page₁.attributeName .presence ++ " placeholder")
  have hcache : ({ page₁ with host := t₁ } : Page).cache.Sound := hcalm₁.cache
  obtain ⟨page₂, hevaluate, hcalm₂, hhost₂⟩ := evaluate_spec hcache e page₁.state.scope
  have hcalm : page.Calm page₂ := hcalm₁.trans hcalm₂.afterHost
  have hkept₁ : Kept t₀ bs t₁ := hr.kept.resembles h.declared hr.fresh hres
  have hplaceholder : SetAside t₀ bs t₁ placeholder :=
    ⟨hlive, fun hs => hnew (hr.kept.stays _ hs), hfree⟩
  have hquiet₁ := HostTree.listenersOf_of_keepsListeners hquiet
  have hpristine : ∀ x, t₀.Live x → t₁.figure x = t₀.figure x := fun x hx => by
    rw [hres.figure x (hr.kept.stays x (h.standing hx))]
    exact hr.pristine x hx
  have hasked : ∀ present, (Draft.binding ⟨.presence e placeholder present, e.dependencies⟩
      page.config id d).AskedFor page.config t₀ := fun _ =>
    askedFor_of_expression (.inr (.inr (.inl ⟨_, _, rfl⟩))) he (Draft.covers _ _ _ _ fun _ h => h)
  have hdeclaration : ∀ present, (Draft.binding ⟨.presence e placeholder present, e.dependencies⟩
      page.config id d).declaration = d := fun present =>
    Draft.declaration ⟨.presence e placeholder present, e.dependencies⟩ hkind.symm page.config id
  rw [← hhost₁] at hcreate
  cases htruthy : (e.evaluate page₁.state.heap page₁.state.scope).isTruthy with
  | true =>
    refine ⟨_, page₂, registerPresence_kept hcompile hcreate hevaluate htruthy, ?_⟩
    refine h.made hcalm (hdeclaration true) rfl rfl (hasked true) ?_ ?_ (fun y _ => ?_) ?_ <;>
      rw [hhost₂]
    · exact h.keep hkept₁ hplaceholder hnew
    · exact hpristine
    · exact hquiet₁ y
    · exact hr.grammatical.of_kept hquiet₁
  | false =>
    obtain ⟨t₂, hreplace, hkept₂, hcontent⟩ := h.standIn hkind hkept₁ hplaceholder hnew
    have hquiet₂ := listenersOf_mono hquiet₁
      fun y => .inr (HostTree.listenersOf_eq_of_content_eq (hcontent y))
    refine ⟨_, { page₂ with host := t₂ }, registerPresence_replaced hcompile hcreate hevaluate
      htruthy (by rw [hhost₂]; exact hreplace), ?_⟩
    refine h.made (hcalm.withHost t₂) (hdeclaration false) rfl rfl (hasked false) hkept₂
      (fun x hx => ?_) (fun y _ => hquiet₂ y) (hr.grammatical.of_kept hquiet₂)
    exact (HostTree.figure_eq_of_content_eq (hcontent x)).trans (hpristine x hx)

/-! ## Templates -/

/-- The paths that some elements of a template read besides the item, and maybe more. -/
theorem elementReads_spec (kind : DirectiveKind) (item : String) (elements : List NodeId) :
    ∀ (reads : List String) (page : Page), page.cache.Sound →
      ∃ reads' page', elements.foldl (elementReads kind item) (reads, page) = (reads', page') ∧
        page.Calm page' ∧ page'.host = page.host ∧ reads ⊆ reads' ∧
        ∀ x ∈ elements, ∀ source,
          (page.host.figure x).source? (page.attributeName kind) = some source →
            (CompiledExpression.compile source).dependenciesOutside item ⊆ reads' := by
  induction elements with
  | nil =>
    intro reads page hcache
    exact ⟨reads, page, rfl, Calm.refl hcache, rfl, fun _ h => h, nofun⟩
  | cons x elements ih =>
    intro reads page hcache
    cases hattribute : page.host.attribute? x (page.attributeName kind) with
    | none =>
      obtain ⟨reads', page', hfold, hcalm, hhost, hsub, hall⟩ := ih reads page hcache
      refine ⟨reads', page', ?_, hcalm, hhost, hsub, fun y hy source hsource => ?_⟩
      · simp only [List.foldl_cons, elementReads, hattribute, hfold]
      · rcases List.mem_cons.1 hy with rfl | hy
        · rw [HostTree.attribute?_of_source? hsource] at hattribute
          cases hattribute
        · exact hall y hy source hsource
    | some text =>
      obtain ⟨page₁, hcompile, hcalm₁, hhost₁⟩ := compile_spec hcache text .loop
      obtain ⟨reads', page', hfold, hcalm, hhost, hsub, hall⟩ := ih
        (reads ++ (CompiledExpression.compile text).dependenciesOutside item) page₁ hcalm₁.cache
      refine ⟨reads', page', ?_, hcalm₁.trans hcalm, hhost.trans hhost₁,
        fun path hpath => hsub (List.mem_append_left _ hpath), fun y hy source hsource => ?_⟩
      · simp only [List.foldl_cons, elementReads, hattribute, hcompile, hfold]
      · rcases List.mem_cons.1 hy with rfl | hy
        · rw [HostTree.attribute?_of_source? hsource] at hattribute
          obtain rfl := Option.some.inj hattribute
          exact fun path hpath => hsub (List.mem_append_right _ hpath)
        · refine hall y hy source ?_
          rw [hhost₁, attributeName, hcalm₁.config]
          exact hsource

theorem kindReads_spec {shape : Branch Figure} {template : NodeId} (item : String)
    (kind : DirectiveKind) (reads : List String) (hcache : page.cache.Sound)
    (hl : page.host.Linked) (hdrawn : page.host.Draws template shape) :
    ∃ reads' page', kindReads item template (reads, page) kind = (.ok (), reads', page') ∧
      page.Calm page' ∧ page'.host = page.host ∧ reads ⊆ reads' ∧
      ∀ f ∈ shape.labels, ∀ source, f.source? (page.config.attributeName kind) = some source →
        (CompiledExpression.compile source).dependenciesOutside item ⊆ reads' := by
  obtain ⟨b, hb, rfl, rfl⟩ := hdrawn
  obtain ⟨reads', page', hfold, hcalm, hhost, hsub, hall⟩ := elementReads_spec kind item
    (b.labels.filter fun x => ((page.host.figure x).source? (page.attributeName kind)).isSome)
    reads page hcache
  refine ⟨reads', page', ?_, hcalm, hhost, hsub, fun f hf source hsource => ?_⟩
  · simp only [kindReads, hb.withAttribute hl, hfold]
  · rw [Branch.labels_map] at hf
    obtain ⟨x, hx, rfl⟩ := List.mem_map.1 hf
    refine hall x (List.mem_filter.2 ⟨hx, ?_⟩) source hsource
    rw [show (page.host.figure x).source? (page.attributeName kind) = some source from hsource]
    rfl

/-- What the expressions of a template read besides the item, and maybe more. -/
theorem templateReads_spec {shape : Branch Figure} {template : NodeId} (item : String)
    (hcache : page.cache.Sound) (hl : page.host.Linked) (hdrawn : page.host.Draws template shape) :
    ∃ reads page', page.templateReads item template = (.ok (), reads, page') ∧
      page.Calm page' ∧ page'.host = page.host ∧
      ∀ f ∈ shape.labels, ∀ kind ∈ templateKinds, ∀ source,
        f.source? (page.config.attributeName kind) = some source →
          (CompiledExpression.compile source).dependenciesOutside item ⊆ reads := by
  obtain ⟨reads₁, page₁, hbind, hcalm₁, hhost₁, -, hall₁⟩ :=
    kindReads_spec item .bind [] hcache hl hdrawn
  rw [← hhost₁] at hl hdrawn
  obtain ⟨reads₂, page₂, hshow, hcalm₂, hhost₂, hsub₂, hall₂⟩ :=
    kindReads_spec item .visibility reads₁ hcalm₁.cache hl hdrawn
  refine ⟨reads₂, page₂, ?_, hcalm₁.trans hcalm₂, hhost₂.trans hhost₁,
    fun f hf kind hkind source hsource => ?_⟩
  · rw [templateReads, templateKinds, untilFailure_cons hbind, untilFailure_cons hshow,
      untilFailure_nil]
  · rcases List.mem_pair.1 hkind with rfl | rfl
    · exact fun path hpath => hsub₂ (hall₁ f hf source hsource hpath)
    · refine hall₂ f hf source ?_
      rw [hcalm₁.config]
      exact hsource

/-! ## Lists -/

/-- No binding has its node in the element of a list, so it is as it was in the document. -/
theorem Registrable.holds (h : Registrable t₀ page bs d) (hkind : d.kind = .repetition) :
    ∃ b : Branch NodeId, b.label = d.node ∧ t₀.Holds b ∧ page.host.Holds b ∧
      b.map page.host.figure = b.map t₀.figure := by
  have hr := h.ready
  obtain ⟨b, hlabel, hb⟩ := HostTree.exists_holds hr.tree.linked hr.tree.acyclic h.live
  have hout : ∀ c ∈ bs, ¬ t₀.Below d.node c.node := by
    intro c hc hbelow
    have hcd : c.declaration ∈ bs.map Binding.declaration ++ [d] :=
      List.mem_append_left _ (List.mem_map_of_mem hc)
    have hnode : c.node = d.node := h.plan.whole d (by simp) _ hcd hkind hbelow
    have hkind' := h.plan.alone d (by simp) _ hcd hnode.symm hkind
    exact h.kind_ne hc hnode ((show c.kind = .repetition from hkind').trans hkind.symm)
  exact ⟨b, hlabel, hb, hr.kept.holds hr.tree hr.fresh hb fun c hc hbelow =>
    absurd (hlabel ▸ hbelow) (hout c hc), b.map_congr fun x hx => hr.pristine x (hb.live hx)⟩

/-- The placeholder takes the place of the element of a list, whatever the binding will read. -/
theorem Registrable.exchange (h : Registrable t₀ page bs d) (hkind : d.kind = .repetition)
    (clause : ForClause) {template placeholder : NodeId} {shape : Branch Figure}
    (hkept : Kept t₀ bs t) (htemplate : SetAside t₀ bs t template)
    (hplaceholder : SetAside t₀ bs t placeholder) (hne : template ≠ placeholder)
    (hnew : ∀ c ∈ bs, ∀ o ∈ c.own, o ≠ template ∧ o ≠ placeholder)
    (hdrawn₀ : t₀.Draws d.node shape) (hdrawn : t.Draws template shape) (id : Nat)
    (reads : List String) :
    let draft : Draft := ⟨.repetition clause template placeholder [], reads⟩
    ∃ t', t.replace d.node placeholder = (.ok (), t') ∧
      Kept t₀ (bs ++ [draft.binding page.config id d]) t' ∧ (∀ x, t'.content x = t.content x) ∧
      ∀ o, ¬ Standing t₀ bs o → ∀ shape, t.Draws o shape → t'.Draws o shape := by
  intro draft
  let b := draft.binding page.config id d
  have hown : b.own = [template, placeholder] := rfl
  have hmade : ∀ o ∈ b.own, (t.Live o ∧ ¬ Standing t₀ bs o) ∧
      (t.parent? o = none ∨ t.parent? o = t₀.parent? b.node) := by
    intro o ho
    rw [hown] at ho
    rcases List.mem_pair.1 ho with rfl | rfl
    · exact ⟨⟨htemplate.live, htemplate.apart⟩, .inl htemplate.free⟩
    · exact ⟨⟨hplaceholder.live, hplaceholder.apart⟩, .inl hplaceholder.free⟩
  have hdistinct : ((bs ++ [b]).flatMap Binding.own).Nodup := by
    refine nodup_own_append hkept.distinct (by rw [hown]; simpa using hne) ?_
    intro o ho c hc hoc
    rw [hown] at ho
    rcases List.mem_pair.1 ho with heq | heq
    · exact (hnew c hc o hoc).1 heq
    · exact (hnew c hc o hoc).2 heq
  have hdeclaration : b.declaration = d := draft.declaration hkind.symm page.config id
  refine hkept.exchange h.ready.tree
    ⟨h.declared_append hdeclaration, List.mem_append_right _ (List.mem_singleton_self _),
      fun c hc => (List.mem_append.1 hc).symm.imp_left List.mem_singleton.1,
      fun x => filled_append rfl, fun x hx => occupants_append_of_ne hx,
      h.occupants_self (.inr hkind), rfl, .inr (by rw [hown]; simp), hplaceholder.free, hmade,
      hdistinct, ?_, ?_⟩
  · intro o ho
    rw [List.mem_singleton.1 ho]
    exact .inr ⟨hne, htemplate.free⟩
  · intro clause' template placeholder' rendered hdir
    cases hdir
    exact ⟨_, hdrawn₀, hdrawn⟩

theorem registerRepetition_spec (h : Registrable t₀ page bs d) (id : Nat)
    (hkind : d.kind = .repetition) :
    ∃ draft? page', page.registerRepetition d.node d.text = (.ok draft?, page') ∧
      Registered t₀ page page' bs d (draft?.map fun draft => draft.binding page.config id d) := by
  have hr := h.ready
  cases hparse : parseForClause (Text.trim d.text) with
  | error e =>
    exact ⟨none, _, registerRepetition_malformed hparse, h.skip ⟨rfl, rfl, rfl, hr.cache⟩ rfl⟩
  | ok clause =>
    obtain ⟨b, hlabel, hb₀, hb, hshape⟩ := h.holds hkind
    obtain ⟨copy, t₁, hclone, hcopied⟩ := HostTree.cloneNode_spec hr.kept.linked hb
    rw [hlabel] at hclone
    have hres₁ : page.host.Resembles t₁ := HostTree.Resembles.of_kept hcopied.linked hcopied.kept
    let label := ({ page with host := t₁ } : Page).repetitionLabel clause
    obtain ⟨placeholder, t₂, hcreate, hres₂, hnew, hlive, hfree, hquiet⟩ :=
      HostTree.createPlaceholder_spec hcopied.linked label
    have hres := hres₁.trans hres₂
    have hcopy : t₁.Live copy.label := hcopied.holds.live_label
    have hdrawn₂ : t₂.Draws copy.label (b.map t₀.figure) :=
      HostTree.Draws.resembles ⟨copy, hcopied.holds, rfl, hcopied.shape.trans hshape⟩ hres₂
    have hdrawn₀ : t₀.Draws d.node (b.map t₀.figure) := ⟨b, hb₀, hlabel, rfl⟩
    have hcopyNew : ¬ page.host.Live copy.label := hcopied.fresh _ copy.label_mem_labels
    have hplaceholderNew : ¬ page.host.Live placeholder := fun hp => hnew (hres₁.live _ hp)
    have htemplate : SetAside t₀ bs t₂ copy.label := by
      refine ⟨hres₂.live _ hcopy, fun hs => hcopyNew (hr.kept.stays _ hs), ?_⟩
      rw [hres₂.parent _ hcopy]
      exact hcopied.loose
    have hplaceholder : SetAside t₀ bs t₂ placeholder :=
      ⟨hlive, fun hs => hplaceholderNew (hr.kept.stays _ hs), hfree⟩
    have hexchange := h.exchange hkind clause
      (hr.kept.resembles h.declared hr.fresh hres) htemplate hplaceholder
      (fun heq => hnew (heq ▸ hcopy)) (fun c hc o ho =>
        ⟨fun heq => hcopyNew (heq ▸ (hr.kept.made c hc o ho).1),
          fun heq => hplaceholderNew (heq ▸ (hr.kept.made c hc o ho).1)⟩) hdrawn₀ hdrawn₂ id
    obtain ⟨t₃, hreplace, hkept₃, hcontent, hsubtrees⟩ := hexchange []
    have hcache₃ : ({ page with host := t₃ } : Page).cache.Sound := hr.cache
    obtain ⟨reads, page', htemplate, hcalm, hhost, hcovers⟩ :=
      templateReads_spec clause.item hcache₃ hkept₃.linked (hsubtrees _ htemplate.apart _ hdrawn₂)
    -- The same exchange serves the binding with what its template reads.
    let all := (clause.list.dotted :: reads).eraseDups
    let draft : Draft := ⟨.repetition clause copy.label placeholder [], all⟩
    obtain ⟨t₃', hreplace', hkept, -⟩ := hexchange all
    obtain rfl : t₃ = t₃' := congrArg Prod.snd (hreplace.symm.trans hreplace')
    have hregister : page.registerRepetition d.node d.text = (.ok (some draft), page') :=
      registerRepetition_made hparse hclone hcreate hreplace htemplate
    have hall : ∀ paths : List String, (∀ path ∈ paths, path ∈ clause.list.dotted :: reads) →
        (draft.binding page.config id d).Covers paths := fun paths hpaths =>
      Draft.covers _ _ _ _ fun path hpath => List.mem_eraseDups.2 (hpaths path hpath)
    have hasked : (draft.binding page.config id d).AskedFor page.config t₀ := by
      refine ⟨hparse, hall _ fun path hpath => ?_, fun shape hdrawn f hf kind hkind' source hsource =>
        hall _ fun path hpath => ?_⟩
      · rw [List.mem_singleton.1 hpath]
        exact List.mem_cons_self
      · obtain rfl := hdrawn.unique hdrawn₀
        exact List.mem_cons_of_mem _ (hcovers f hf kind hkind' source hsource hpath)
    have hcalm' : page.Calm page' := hcalm.afterHost
    have hquiet' : ∀ y, page'.host.listenersOf y = [] ∨
        page'.host.listenersOf y = page.host.listenersOf y := by
      rw [hhost]
      have hlisteners₁ := HostTree.listenersOf_of_keepsListeners hcopied.keepsListeners
      have hlisteners₂ := HostTree.listenersOf_of_keepsListeners hquiet
      exact listenersOf_mono (listenersOf_mono hlisteners₁ hlisteners₂)
        fun z => .inr (HostTree.listenersOf_eq_of_content_eq (hcontent z))
    refine ⟨some draft, page', hregister, h.made hcalm'
      (draft.declaration hkind.symm page.config id) rfl rfl hasked ?_ (fun x hx => ?_)
      (fun y _ => hquiet' y) (hr.grammatical.of_kept hquiet')⟩
    · rw [hhost]
      exact hkept
    · rw [hhost, HostTree.figure_eq_of_content_eq (hcontent x),
        hres.figure x (hr.kept.stays x (h.standing hx))]
      exact hr.pristine x hx

/-! ## Inputs and events -/

theorem registerModel_spec (h : Registrable t₀ page bs d) (id : Nat) (hkind : d.kind = .model) :
    ∃ draft? page', page.registerModel d.node d.text = (.ok draft?, page') ∧
      Registered t₀ page page' bs d (draft?.map fun draft => draft.binding page.config id d) := by
  have hr := h.ready
  obtain ⟨page₁, hcompile, hcalm, hhost⟩ := compile_spec hr.cache d.text .state
  obtain ⟨e, he⟩ : ∃ e, e = CompiledExpression.compile d.text := ⟨_, rfl⟩
  rw [← he] at hcompile
  have hplain : ∀ {expr : Expr}, e.outcome = .ok expr → (∀ path, expr ≠ .path path) →
      ∃ page', page.registerModel d.node d.text = (.ok none, page') ∧
        Registered t₀ page page' bs d none := by
    intro expr houtcome hne
    refine ⟨page₁.record .malformedModel e.source "two-way binding needs a property path", ?_,
      h.skip ⟨hcalm.config, hcalm.store, hcalm.scheduler, hcalm.cache⟩ hhost⟩
    cases expr with
    | path path => exact absurd rfl (hne path)
    | _ => simp only [registerModel, hcompile, houtcome]
  cases houtcome : e.outcome with
  | error error =>
    refine ⟨none, page₁, ?_, h.skip hcalm hhost⟩
    simp only [registerModel, hcompile, houtcome]
  | ok expr =>
    by_cases hpath : ∃ path, expr = .path path
    · obtain ⟨path, rfl⟩ := hpath
      have hlive : page₁.host.Live d.node := by
        rw [hhost]
        exact hr.kept.stays _ (h.standing h.live)
      have hlinked : page₁.host.Linked := by
        rw [hhost]
        exact hr.kept.linked
      obtain ⟨listener, t', hadd, hres, hkept, hself⟩ :=
        HostTree.addListener_spec hlinked hlive "input" (.input path.dotted)
      rw [hhost] at hres hkept hself
      have hpath : path.Grammatical := by
        refine CompiledExpression.grammatical d.text path ?_
        rw [← he, CompiledExpression.paths, houtcome]
        exact List.mem_cons_self
      have haction : Reaction.Grammatical (.input path.dotted) := ⟨path, hpath, rfl⟩
      have hgrammatical : t'.Grammatical := hr.grammatical.addListener haction hkept hself
      let draft : Draft := ⟨.model e listener, [path.dotted]⟩
      let b := draft.binding page.config id d
      have hreads : e.dependencies = [path.dotted] := by
        rw [CompiledExpression.dependencies, CompiledExpression.paths, houtcome]
        rfl
      have hcovers : b.Covers e.dependencies :=
        Draft.covers _ _ _ _ fun p hp => by rwa [hreads] at hp
      have hasked : b.AskedFor page.config t₀ :=
        askedFor_of_expression (.inr (.inr (.inr ⟨listener, rfl⟩))) he hcovers
      refine ⟨some draft, { page₁ with host := t' }, ?_, h.plain (hcalm.withHost t') hres hkept
        hgrammatical (draft.declaration hkind.symm _ _) rfl rfl rfl rfl hasked⟩
      simp only [registerModel, hcompile, houtcome, hadd]
      rfl
    · obtain ⟨page', hregister, hregistered⟩ := hplain houtcome fun path heq => hpath ⟨path, heq⟩
      exact ⟨none, page', hregister, hregistered⟩

/-- What adding listeners to a node does. -/
structure Hooked (page page' : Page) (node : NodeId) (listeners : List Nat) : Prop where
  calm : page.Calm page'
  resembles : page.host.Resembles page'.host
  kept : ∀ x, x ≠ node → page'.host.node? x = page.host.node? x
  grammatical : page'.host.Grammatical
  idle : listeners = [] → page'.host = page.host

theorem registerEntry_spec {page₁ : Page} {node : NodeId} {listeners : List Nat}
    (h : Hooked page page₁ node listeners) (hnode : page.host.Live node) (entry : String) :
    ∃ listeners' page', registerEntry node (listeners, page₁) entry =
        (.ok (), listeners', page') ∧ Hooked page page' node listeners' := by
  have hsame : ∀ {page' : Page}, page₁.Calm page' → page'.host = page₁.host →
      Hooked page page' node listeners := by
    intro page' hcalm hhost
    refine ⟨h.calm.trans hcalm, ?_, ?_, ?_, ?_⟩
    · rw [hhost]
      exact h.resembles
    · rw [hhost]
      exact h.kept
    · rw [hhost]
      exact h.grammatical
    · rw [hhost]
      exact h.idle
  cases hsplit : splitEntry? entry with
  | none =>
    refine ⟨listeners, page₁.record .malformedEvent entry "expected `event: code`", ?_,
      hsame ⟨rfl, rfl, rfl, h.calm.cache⟩ rfl⟩
    simp only [registerEntry, hsplit]
  | some found =>
    obtain ⟨event, code⟩ := found
    cases hparse : parseEventAction code with
    | error e =>
      refine ⟨listeners, { page₁ with
        state := page₁.state.recordSyntax .unsupportedEventCode code e }, ?_,
        hsame ⟨rfl, rfl, rfl, h.calm.cache⟩ rfl⟩
      simp only [registerEntry, hsplit, hparse]
    | ok action =>
      obtain ⟨listener, t', hadd, hres, hkept, hself⟩ := HostTree.addListener_spec
        h.resembles.linked (h.resembles.live node hnode) event (.run action)
      have haction : Reaction.Grammatical (.run action) := EventAction.grammatical_of_parse hparse
      have hgrammatical : t'.Grammatical := h.grammatical.addListener haction hkept hself
      refine ⟨listeners ++ [listener], { page₁ with host := t' }, ?_, h.calm.withHost t',
        h.resembles.trans hres, fun x hx => (hkept x hx).trans (h.kept x hx), hgrammatical,
        fun hempty => ?_⟩
      · simp only [registerEntry, hsplit, hparse, hadd]
      · simp at hempty

theorem registerEntries_spec {node : NodeId} (hnode : page.host.Live node) (entries : List String) :
    ∀ {listeners : List Nat} {page₁ : Page}, Hooked page page₁ node listeners →
      ∃ listeners' page', untilFailure (registerEntry node) entries (listeners, page₁) =
        (.ok (), listeners', page') ∧ Hooked page page' node listeners' := by
  induction entries with
  | nil => exact fun h => ⟨_, _, rfl, h⟩
  | cons entry entries ih =>
    intro listeners page₁ h
    obtain ⟨listeners₂, page₂, hentry, h₂⟩ := registerEntry_spec h hnode entry
    obtain ⟨listeners', page', hentries, h'⟩ := ih h₂
    exact ⟨listeners', page', (untilFailure_cons hentry).trans hentries, h'⟩

theorem registerEvents_spec (h : Registrable t₀ page bs d) (id : Nat) (hkind : d.kind = .events) :
    ∃ draft? page', page.registerEvents d.node d.text = (.ok draft?, page') ∧
      Registered t₀ page page' bs d (draft?.map fun draft => draft.binding page.config id d) := by
  have hr := h.ready
  have hstart : Hooked page page d.node [] :=
    ⟨Calm.refl hr.cache, HostTree.Resembles.of_kept hr.kept.linked fun _ _ => rfl, fun _ _ => rfl,
      hr.grammatical, fun _ => rfl⟩
  obtain ⟨listeners, page', hentries, hhooked⟩ := registerEntries_spec
    (hr.kept.stays _ (h.standing h.live)) (eventEntries d.text) hstart
  cases listeners with
  | nil =>
    refine ⟨none, page', ?_, h.skip hhooked.calm (hhooked.idle rfl)⟩
    unfold registerEvents
    rw [hentries]
  | cons listener listeners =>
    let draft : Draft := ⟨.events (listener :: listeners), []⟩
    refine ⟨some draft, page', ?_, h.plain hhooked.calm hhooked.resembles hhooked.kept
      hhooked.grammatical (draft.declaration hkind.symm _ _) rfl rfl rfl rfl trivial⟩
    unfold registerEvents
    rw [hentries]

/-! ## All kinds -/

/-- A binding is made for a declaration unless its text is malformed. -/
theorem register_spec (h : Registrable t₀ page bs d) (id : Nat) :
    ∃ made page', page.register id d.kind d.node d.text = (.ok made, page') ∧
      Registered t₀ page page' bs d made := by
  have hdraft : ∃ draft? page', page.draft d.kind d.node d.text = (.ok draft?, page') ∧
      Registered t₀ page page' bs d (draft?.map fun draft => draft.binding page.config id d) := by
    have hexpression : d.kind = .bind ∨ d.kind = .visibility →
        ∃ draft? page', page.draft d.kind d.node d.text = (.ok draft?, page') ∧
          Registered t₀ page page' bs d
            (draft?.map fun draft => draft.binding page.config id d) := by
      intro hkind
      obtain ⟨draft, page', hregister, hregistered⟩ := registerExpression_spec h id hkind
      refine ⟨some draft, page', ?_, hregistered⟩
      rcases hkind with hkind | hkind <;> rw [hkind] at hregister ⊢ <;>
        simp only [Page.draft, hregister]
    cases hkind : d.kind with
    | bind => exact hkind ▸ hexpression (.inl hkind)
    | visibility => exact hkind ▸ hexpression (.inr hkind)
    | presence =>
      obtain ⟨draft, page', hregister, hregistered⟩ := registerPresence_spec h id hkind
      refine ⟨some draft, page', ?_, hregistered⟩
      rw [Page.draft, hregister]
      rfl
    | repetition => exact registerRepetition_spec h id hkind
    | model => exact registerModel_spec h id hkind
    | events => exact registerEvents_spec h id hkind
  obtain ⟨draft?, page', hdraft, hregistered⟩ := hdraft
  refine ⟨_, page', ?_, hregistered⟩
  rw [register, hdraft]
  dsimp only
  rw [hregistered.calm.config]
  rfl

end Page

end ReactiveTemplate
