import ReactiveTemplate.Proofs.Document.Attributes
import ReactiveTemplate.Proofs.Engine.Currency
import ReactiveTemplate.Proofs.Engine.Upkeep

/-!
# Two pages side by side

Two pages show the same document, and their states agree on what the attribute texts of a template
stand for. Then an update of the list leaves the same document on both of them: the two updates go
side by side, and each step has the same outcome on both pages.

* `HostTree.AsksOnly`: the attribute texts that rendering evaluates below a node.
* `Page.Abreast`: two pages that have come equally far.
* `Page.renderCopy_abreast`, `Page.renderItems_abreast`: rendering copies on both of them.
* `Page.updateRepetition_abreast`: the update of a list.
-/

namespace ReactiveTemplate

/-! ## What a subtree asks for -/

/-- The attribute texts that rendering evaluates below a node are among some that are allowed. -/
def HostTree.AsksOnly (t : HostTree Reaction) (config : Config) (allowed : String → Prop)
    (o : NodeId) : Prop :=
  ∀ y, t.Below o y → ∀ kind ∈ Page.templateKinds, ∀ source,
    (t.figure y).source? (config.attributeName kind) = some source → allowed source

namespace HostTree.AsksOnly

variable {t t' : HostTree Reaction} {config : Config} {allowed : String → Prop}
  {o copy anchor : NodeId}

theorem less (h : t.AsksOnly config allowed o) (hless : t.CarriesLess t') :
    t'.AsksOnly config allowed o := by
  intro y hbelow kind hkind source hname
  obtain ⟨hbelow', hname'⟩ := hless.source? hbelow hname
  exact h y hbelow' kind hkind source hname'

theorem fixed (h : t.AsksOnly config allowed o) (hfixed : t.Fixed t' o) :
    t'.AsksOnly config allowed o := by
  intro y hbelow kind hkind source hname
  have hbelow' := hfixed.below_iff.1 hbelow
  rw [figure_eq_of_content_eq (hfixed y hbelow').1] at hname
  exact h y hbelow' kind hkind source hname

/-- A copy asks for what the copied subtree asks for. -/
theorem cloneNode (hs : t.Sound) (h : t.AsksOnly config allowed o)
    (hclone : t.cloneNode o = (.ok copy, t')) : t'.AsksOnly config allowed copy := by
  cases ho : t.node? o with
  | none =>
    rw [HostTree.cloneNode, HostTree.cloneWithin, get_dead ho] at hclone
    cases hclone
  | some n =>
    obtain ⟨b, rfl, hb⟩ := exists_holds hs.tree.linked hs.tree.acyclic ⟨n, ho⟩
    obtain ⟨d, t₁, hclone₁, hcopied⟩ := cloneNode_spec hs.tree.linked hb
    rw [hclone, Prod.mk.injEq, Except.ok.injEq] at hclone₁
    obtain ⟨rfl, rfl⟩ := hclone₁
    intro y hbelow kind hkind source hname
    obtain ⟨x, hx, hname'⟩ := hcopied.source? hb hbelow hname
    exact h x hx kind hkind source hname'

/-- A copy that is put behind another node adds what it asks for. -/
theorem swapped (h : t.AsksOnly config allowed o) (hcopy : t.AsksOnly config allowed copy)
    (hswapped : t.Swapped t' anchor [anchor, copy]) : t'.AsksOnly config allowed o := by
  intro y hbelow kind hkind source hname
  rw [figure_eq_of_content_eq (hswapped.content y)] at hname
  rcases hswapped.below hbelow with ho | ⟨x, hx, hne, hxy⟩
  · exact h y ho kind hkind source hname
  · rw [List.mem_pair, or_iff_right hne] at hx
    exact hcopy y (hx ▸ hxy) kind hkind source hname

end HostTree.AsksOnly

/-! ## Two pages side by side -/

section Steps

variable {σ τ ε β : Type} {step : σ → β → Except ε Unit × σ} {step' : τ → β → Except ε Unit × τ}

/-- Two rows of steps that have the same outcomes step by step have the same outcome. -/
theorem untilFailure_together {R : σ → τ → Prop} {xs : List β}
    (hstep : ∀ x ∈ xs, ∀ s s', R s s' →
      (step' s' x).1 = (step s x).1 ∧ R (step s x).2 (step' s' x).2) :
    ∀ s s', R s s' → (untilFailure step' xs s').1 = (untilFailure step xs s).1 ∧
      R (untilFailure step xs s).2 (untilFailure step' xs s').2 := by
  induction xs with
  | nil => exact fun s s' h => ⟨rfl, h⟩
  | cons x xs ih =>
    intro s s' h
    obtain ⟨houtcome, hrest⟩ := hstep x List.mem_cons_self s s' h
    rw [untilFailure, untilFailure]
    generalize step s x = r at houtcome hrest
    generalize step' s' x = r' at houtcome hrest
    obtain ⟨r, s₁⟩ := r
    obtain ⟨r', s₁'⟩ := r'
    obtain rfl : r' = r := houtcome
    cases r' with
    | error e => exact ⟨rfl, hrest⟩
    | ok _ => exact ih (fun y hy => hstep y (List.mem_cons_of_mem _ hy)) s₁ s₁' hrest

end Steps

namespace Page

variable {start start' page page' : Page} {scope scope' : Scope} {allowed : String → Prop}
  {template anchor copy : NodeId} {item : String} {value : Value}

/-- Two pages that have come equally far from where they began: they show the same document. -/
structure Abreast (start start' page page' : Page) : Prop where
  calm : start.Calm page
  calm' : start'.Calm page'
  host : page'.host = page.host

/-- An attribute text has the same value on two pages, and shows the same text. -/
def SameSource (start start' : Page) (scope scope' : Scope) (source : String) : Prop :=
  sourceValue start.state.heap scope source = sourceValue start'.state.heap scope' source ∧
    (sourceValue start.state.heap scope source).textContent start.state.heap =
      (sourceValue start'.state.heap scope' source).textContent start'.state.heap

theorem Abreast.withHost (h : Abreast start start' page page') (t : HostTree Reaction) :
    Abreast start start' { page with host := t } { page' with host := t } :=
  ⟨h.calm.withHost t, h.calm'.withHost t, rfl⟩

/-- The same edit has the same outcome. -/
theorem Abreast.edit (h : Abreast start start' page page')
    (edited : Except HostError (HostTree Reaction)) :
    (page'.edit edited).1 = (page.edit edited).1 ∧
      Abreast start start' (page.edit edited).2 (page'.edit edited).2 := by
  cases edited with
  | error e => exact ⟨rfl, h⟩
  | ok t => exact ⟨rfl, h.withHost t⟩

/-- What rendering an element does to it, once the value of its expression is known. -/
def renderEdit (t : HostTree Reaction) (kind : DirectiveKind) (element : NodeId) (text : String)
    (visible : Bool) : Except HostError (HostTree Reaction) :=
  match kind with
  | .bind => t.setText element text
  | _ => t.setStyle element "display" (if visible then "" else "none")

/-- An element with an attribute text is edited by the value of the text. -/
theorem renderElement_eq (scope : Scope) (hc : page.cache.Sound) {kind : DirectiveKind}
    {element : NodeId} {source : String}
    (hattribute : page.host.attribute? element (page.attributeName kind) = some source) :
    ∃ page₁, page.Calm page₁ ∧ page₁.host = page.host ∧
      renderElement kind scope page element = page₁.edit (renderEdit page.host kind element
        ((sourceValue page.state.heap scope source).textContent page.state.heap)
        (sourceValue page.state.heap scope source).isTruthy) := by
  obtain ⟨page₁, hcompile, hcalm₁, hhost₁⟩ := compile_spec hc source .loop
  obtain ⟨page₂, hevaluate, hcalm₂, hhost₂⟩ :=
    evaluate_spec hcalm₁.cache (CompiledExpression.compile source) scope
  have hhost : page₂.host = page.host := hhost₂.trans hhost₁
  have hcalm := hcalm₁.trans hcalm₂
  refine ⟨page₂, hcalm, hhost, ?_⟩
  rw [hcalm₁.heap] at hevaluate
  change page₁.evaluate _ scope = (sourceValue page.state.heap scope source, page₂) at hevaluate
  simp only [renderElement, hattribute, hcompile, hevaluate]
  cases kind with
  | bind => rw [textOf, hcalm.heap, hhost, renderEdit]
  | visibility | presence | repetition | model | events =>
    rw [setVisible, hhost]
    rfl

/-- An element of a copy is rendered on both pages. -/
theorem renderElement_abreast (h : Abreast start start' page page')
    (hconfig : start'.config = start.config) {kind : DirectiveKind} {element : NodeId}
    (hsame : ∀ source, page.host.attribute? element (start.config.attributeName kind) =
      some source → SameSource start start' scope scope' source) :
    (renderElement kind scope' page' element).1 = (renderElement kind scope page element).1 ∧
      Abreast start start' (renderElement kind scope page element).2
        (renderElement kind scope' page' element).2 := by
  have hname : page.attributeName kind = start.config.attributeName kind := by
    rw [attributeName, h.calm.config]
  have hname' : page'.attributeName kind = page.attributeName kind := by
    rw [attributeName, h.calm'.config, hconfig, hname]
  rw [← hname] at hsame
  cases hattribute : page.host.attribute? element (page.attributeName kind) with
  | none =>
    simp only [renderElement, hname', h.host, hattribute]
    exact ⟨trivial, h⟩
  | some source =>
    obtain ⟨hvalue, htext⟩ := hsame source hattribute
    have hattribute' : page'.host.attribute? element (page'.attributeName kind) = some source := by
      rw [h.host, hname', hattribute]
    obtain ⟨page₁, hcalm₁, hhost₁, hrender⟩ := renderElement_eq scope h.calm.cache hattribute
    obtain ⟨page₁', hcalm₁', hhost₁', hrender'⟩ :=
      renderElement_eq scope' h.calm'.cache hattribute'
    have habreast : Abreast start start' page₁ page₁' :=
      ⟨h.calm.trans hcalm₁, h.calm'.trans hcalm₁', by rw [hhost₁', h.host, hhost₁]⟩
    rw [hrender, hrender', h.calm.heap, h.calm'.heap, h.host, htext, hvalue]
    exact habreast.edit _

/-- What a property of documents must say so that a copy is rendered in the same way on two
    pages: rendering keeps it, and the copy asks for what is allowed. -/
structure Renders (config : Config) (allowed : String → Prop) (reach : NodeId → Prop)
    (copy : NodeId) (Q : HostTree Reaction → Prop) : Prop where
  stable : RenderStable config reach copy Q
  sound : ∀ t, Q t → t.Sound
  live : ∀ t, Q t → t.Live copy
  asks : ∀ t, Q t → t.AsksOnly config allowed copy

variable {reach : NodeId → Prop} {Q : HostTree Reaction → Prop}

/-- While a copy is rendered, nothing carries an attribute that did not before. -/
theorem Renders.less {config : Config} (hQ : Renders config allowed reach copy Q)
    (base : HostTree Reaction) :
    RenderStable config reach copy fun t => Q t ∧ base.CarriesLess t where
  inside t h := hQ.stable.inside t h.1
  text t id text t' h hreach hsome hset :=
    ⟨hQ.stable.text t id text t' h.1 hreach hsome hset, h.2.trans (.setText (hQ.sound t h.1) hset)⟩
  style t id value t' h hreach hset :=
    ⟨hQ.stable.style t id value t' h.1 hreach hset,
      h.2.trans (.update hset (fun _ => rfl) (fun _ => rfl) fun _ => rfl)⟩

/-- The elements of a copy that carry one kind of directive are rendered on both pages. -/
theorem renderKind_abreast (hQ : Renders start.config allowed reach copy Q)
    (hconfig : start'.config = start.config)
    (hsame : ∀ source, allowed source → SameSource start start' scope scope' source)
    {kind : DirectiveKind} (hkind : kind ∈ templateKinds)
    (h : Abreast start start' page page') (hq : Q page.host) :
    (renderKind scope' copy page' kind).1 = (renderKind scope copy page kind).1 ∧
      Abreast start start' (renderKind scope copy page kind).2
        (renderKind scope' copy page' kind).2 ∧
      Q (renderKind scope copy page kind).2.host := by
  have hs := hQ.sound _ hq
  obtain ⟨b, rfl, hb⟩ := HostTree.exists_holds hs.tree.linked hs.tree.acyclic (hQ.live _ hq)
  have hname : page'.attributeName kind = page.attributeName kind := by
    rw [attributeName, attributeName, h.calm'.config, hconfig, h.calm.config]
  have hname' : page.attributeName kind = start.config.attributeName kind := by
    rw [attributeName, h.calm.config]
  let R : Page → Page → Prop := fun page₁ page₁' =>
    Abreast start start' page₁ page₁' ∧ Q page₁.host ∧ page.host.CarriesLess page₁.host
  have hstep : ∀ element ∈ b.labels.filter fun x =>
      ((page.host.figure x).source? (page.attributeName kind)).isSome, ∀ page₁ page₁',
        R page₁ page₁' →
        (renderElement kind scope' page₁' element).1 = (renderElement kind scope page₁ element).1 ∧
          R (renderElement kind scope page₁ element).2
            (renderElement kind scope' page₁' element).2 := by
    rintro element helement page₁ page₁' ⟨habreast₁, hq₁, hless₁⟩
    obtain ⟨hmem, hsome⟩ := List.mem_filter.1 helement
    have hbelow := hb.mem_labels_iff.1 hmem
    obtain ⟨source₀, hsource₀⟩ := Option.isSome_iff_exists.1 hsome
    have hsource : ∀ source,
        page₁.host.attribute? element (start.config.attributeName kind) = some source →
          SameSource start start' scope scope' source := fun source hsource => by
      -- The element still carries what it carried when the elements were looked up.
      have hold := hless₁.attribute? hsource
      rw [← hname', HostTree.attribute?_of_source? hsource₀] at hold
      refine hsame source (hQ.asks _ hq element hbelow kind hkind source ?_)
      rw [← hname', hsource₀, hold]
    obtain ⟨houtcome, habreast₂⟩ := renderElement_abreast habreast₁ hconfig hsource
    have hreach := hQ.stable.inside _ hq element ((hs.mem_preorder (hQ.live _ hq)).2 hbelow)
    exact ⟨houtcome, habreast₂, (renderElement_keeps (hQ.less page.host) hreach
      ⟨habreast₁.calm.config, hq₁, hless₁⟩).2⟩
  rw [renderKind, renderKind, h.host, hname, hb.withAttribute hs.tree.linked]
  obtain ⟨houtcome, habreast, hq', -⟩ :=
    untilFailure_together (R := R) hstep page page' ⟨h, hq, .refl _⟩
  exact ⟨houtcome, habreast, hq'⟩

/-- A copy is rendered on both pages. -/
theorem renderCopy_abreast (hQ : Renders start.config allowed reach copy Q)
    (hconfig : start'.config = start.config)
    (hsame : ∀ source, allowed source → SameSource start start'
      (.item item value start.state.scope) (.item item value start'.state.scope) source)
    (h : Abreast start start' page page') (hq : Q page.host) :
    (page'.renderCopy copy item value).1 = (page.renderCopy copy item value).1 ∧
      Abreast start start' (page.renderCopy copy item value).2
        (page'.renderCopy copy item value).2 ∧
      Q (page.renderCopy copy item value).2.host := by
  rw [renderCopy, renderCopy, h.calm.scope, h.calm'.scope]
  refine untilFailure_together (R := fun page₁ page₁' =>
    Abreast start start' page₁ page₁' ∧ Q page₁.host) (fun kind hkind page₁ page₁' h₁ => ?_)
    page page' ⟨h, hq⟩
  exact renderKind_abreast hQ hconfig hsame hkind h₁.1 h₁.2

/-! ## Copies for the items of a list -/

variable {t t' t'' : HostTree Reaction} {config : Config}

/-- A new copy that asks for what is allowed is rendered in the same way on two pages. -/
theorem Drafted.renders (ht : t.Sound) (hnew : ¬ t.Live copy) (config : Config)
    (allowed : String → Prop) :
    Renders config allowed (fun x => ¬ t.Live x) copy fun t' =>
      Drafted t copy t' ∧ t'.AsksOnly config allowed copy where
  stable :=
    { inside := fun _ h => (Drafted.renderStable ht hnew config).inside _ h.1
      text := fun _ id text t'' h hreach hsome hset =>
        ⟨(Drafted.renderStable ht hnew config).text _ id text t'' h.1 hreach hsome hset,
          h.2.less (.setText h.1.beside.sound hset)⟩
      style := fun _ id value t'' h hreach hset =>
        ⟨(Drafted.renderStable ht hnew config).style _ id value t'' h.1 hreach hset,
          h.2.less (.update hset (fun _ => rfl) (fun _ => rfl) fun _ => rfl)⟩ }
  sound _ h := h.1.beside.sound
  live _ h := h.1.live
  asks _ h := h.2

/-- What putting copies of a template behind a node takes from the document. -/
structure Copyable (config : Config) (allowed : String → Prop) (template anchor : NodeId)
    (t : HostTree Reaction) : Prop where
  sound : t.Sound
  anchor : t.Live anchor
  kind : t.Live template → (t.figure template).kind ≠ .text
  asks : t.AsksOnly config allowed template

theorem live_of_cloneNode {id : NodeId} (hclone : t.cloneNode id = (.ok copy, t')) : t.Live id := by
  cases hn : t.node? id with
  | none =>
    rw [HostTree.cloneNode, HostTree.cloneWithin, HostTree.get_dead hn] at hclone
    cases hclone
  | some n => exact ⟨n, hn⟩

/-- A new copy is a draft, and asks for what its template asks for. -/
theorem Copyable.drafted (h : Copyable config allowed template anchor t)
    (hclone : t.cloneNode template = (.ok copy, t')) :
    ¬ t.Live copy ∧ Drafted t copy t' ∧ t'.AsksOnly config allowed copy := by
  have hlive := live_of_cloneNode hclone
  obtain ⟨copy₁, t₁, hclone₁, hcloned⟩ := HostTree.cloneNode_cloned h.sound hlive
  rw [hclone, Prod.mk.injEq, Except.ok.injEq] at hclone₁
  obtain ⟨rfl, rfl⟩ := hclone₁
  have hkind := h.kind hlive
  rw [← hcloned.figure] at hkind
  exact ⟨hcloned.new, ⟨⟨hcloned.beside, hcloned.live, hcloned.loose⟩, hkind⟩,
    h.asks.cloneNode h.sound hclone⟩

/-- Behind a rendered copy the next one can be put. -/
theorem Copyable.next (h : Copyable config allowed template anchor t) (htemplate : t.Live template)
    (hnew : ¬ t.Live copy) (hdraft : Drafted t copy t') (hasks : t'.AsksOnly config allowed copy)
    (hinsert : t'.insertAfter anchor copy = (.ok (), t'')) :
    Copyable config allowed template copy t'' := by
  have hs' := hdraft.beside.sound
  cases hp : t'.parent? anchor with
  | none =>
    rw [HostTree.insertAfter, hp] at hinsert
    cases hinsert
  | some p =>
    have hroot : copy ≠ HostTree.root := fun heq => hnew (heq ▸ h.sound.tree.linked.rooted)
    have habove : ¬ t'.Below copy p := fun hbelow =>
      hnew ((hdraft.guarded h.sound).of_below hs'.tree.linked hbelow
        ((hdraft.guarded h.sound).above _ _ h.anchor hp))
    obtain ⟨t₁, hinsert₁, hswapped, -⟩ :=
      HostTree.insertAfter_swaps hs' hp hdraft.live hdraft.loose hroot habove
    obtain rfl : t₁ = t'' := congrArg Prod.snd (hinsert₁.symm.trans hinsert)
    have hfixed := HostTree.Fixed.beside h.sound.tree.linked hdraft.beside htemplate
    refine ⟨hswapped.sound, hdraft.live.of_content (hswapped.content copy), fun _ => ?_,
      (h.asks.fixed hfixed).swapped hasks hswapped⟩
    rw [HostTree.figure_eq_of_content_eq (hswapped.content template),
      HostTree.figure_eq_of_node?_eq (hdraft.beside.same template htemplate)]
    exact h.kind htemplate

/-- Copies for the same items on both pages. -/
theorem renderItems_abreast (hconfig : start'.config = start.config) (earlier : Option HostError)
    (values : List Value)
    (hsame : ∀ value ∈ values, ∀ source, allowed source → SameSource start start'
      (.item item value start.state.scope) (.item item value start'.state.scope) source) :
    ∀ {page page' : Page} {anchor : NodeId} (rendered : List NodeId),
      Abreast start start' page page' →
      Copyable start.config allowed template anchor page.host →
      let r := renderItems item template earlier values anchor rendered page
      let r' := renderItems item template earlier values anchor rendered page'
      r'.1 = r.1 ∧ r'.2.1 = r.2.1 ∧ Abreast start start' r.2.2 r'.2.2 := by
  induction values with
  | nil => exact fun rendered h _ => ⟨rfl, rfl, h⟩
  | cons value values ih =>
    intro page page' anchor rendered h hcopyable
    dsimp only
    rw [renderItems, renderItems, editPartly, editPartly, h.host]
    cases hclone : page.host.cloneNode template with
    | mk cloned t₁ =>
      have h₁ := h.withHost t₁
      cases cloned with
      | error e => exact ⟨rfl, rfl, h₁⟩
      | ok copy =>
        obtain ⟨hnew, hdraft, hasks⟩ := hcopyable.drafted hclone
        obtain ⟨houtcome, h₂, hdraft₂, hasks₂⟩ := renderCopy_abreast
          (Drafted.renders hcopyable.sound hnew start.config allowed) hconfig
          (hsame value List.mem_cons_self) h₁ ⟨hdraft, hasks⟩
        dsimp only
        rw [placeCopy, placeCopy]
        generalize ({ page with host := t₁ } : Page).renderCopy copy item value = r at *
        generalize ({ page' with host := t₁ } : Page).renderCopy copy item value = r' at *
        obtain ⟨r, page₂⟩ := r
        obtain ⟨r', page₂'⟩ := r'
        obtain rfl : r' = r := houtcome
        have hdiscard : ∀ {page₃ page₃'}, Abreast start start' page₃ page₃' →
            Abreast start start' (page₃.discard copy) (page₃'.discard copy) := fun h₃ => by
          rw [discard, discard, h₃.host]
          exact (h₃.edit _).2
        cases r' with
        | error e => exact ⟨rfl, rfl, hdiscard h₂⟩
        | ok _ =>
          dsimp only at h₂ hdraft₂ hasks₂ ⊢
          rw [editPartly, editPartly, h₂.host]
          cases hinsert : page₂.host.insertAfter anchor copy with
          | mk inserted t₃ =>
            have h₃ := h₂.withHost t₃
            cases inserted with
            | error e => exact ⟨rfl, rfl, hdiscard h₃⟩
            | ok _ =>
              have hnext := hcopyable.next (live_of_cloneNode hclone) hnew hdraft₂ hasks₂ hinsert
              exact ih (fun value hvalue => hsame value (List.mem_cons_of_mem _ hvalue))
                (rendered ++ [copy]) h₃ hnext

/-! ## Lists -/

/-- An attribute text whose paths read the same outside of the item has the same value for it. -/
theorem SameSource.of_readsAlike {source : String}
    (hb : start.state.heap.AgreeBelow start'.state.heap value)
    (hpaths : ∀ p ∈ (CompiledExpression.compile source).paths, p.root ≠ item →
      ReadsAlike start.state.heap start'.state.heap start.state.scope start'.state.scope p) :
    SameSource start start' (.item item value start.state.scope)
      (.item item value start'.state.scope) source := by
  refine sourceValue_of_readsAlike fun p hp => ?_
  by_cases hroot : p.root = item
  · exact .item hb hroot
  · exact .outside hroot (hpaths p hp hroot)

theorem Abreast.withState (h : Abreast start start' page page') {s s' : State}
    (hs : s.store = page.state.store ∧ s.scheduler = page.state.scheduler)
    (hs' : s'.store = page'.state.store ∧ s'.scheduler = page'.state.scheduler) :
    Abreast start start' { page with state := s } { page' with state := s' } :=
  ⟨h.calm.trans ⟨rfl, hs.1, hs.2, h.calm.cache⟩, h.calm'.trans ⟨rfl, hs'.1, hs'.2, h.calm'.cache⟩,
    h.host⟩

/-- The items of a list are the same on both pages, if its path reads the same. -/
theorem listAt_abreast (h : Abreast start start' page page') {path : Path}
    (hread : ReadsAlike start.state.heap start'.state.heap start.state.scope start'.state.scope
      path) :
    (page'.listAt path).1 = (page.listAt path).1 ∧
      Abreast start start' (page.listAt path).2 (page'.listAt path).2 ∧
      ∀ values, (page.listAt path).1 = some values → ∀ value ∈ values,
        start.state.heap.AgreeBelow start'.state.heap value := by
  have hnone : ∀ values, (none : Option (List Value)) = some values → ∀ value ∈ values,
      start.state.heap.AgreeBelow start'.state.heap value := by
    rintro _ ⟨⟩
  rw [listAt, listAt, h.calm.heap, h.calm.scope, h.calm'.heap, h.calm'.scope, ← hread.value]
  cases hresolve : resolvePath start.state.heap start.state.scope path with
  | error e => exact ⟨rfl, h.withState ⟨rfl, rfl⟩ ⟨rfl, rfl⟩, hnone⟩
  | ok found =>
    have hbelow := hread.below found hresolve
    cases found with
    | array id =>
      have hcell : start.state.heap.array id = start'.state.heap.array id := hbelow.self rfl
      have hitems : start'.state.heap.items id = start.state.heap.items id := by
        rw [Heap.items, Heap.items, hcell]
      have hlocked : start'.state.heap.isLocked (.array id) =
          start.state.heap.isLocked (.array id) := by
        rw [Heap.isLocked, Heap.isLocked, hcell]
      dsimp only
      rw [hlocked, hitems]
      split
      · exact ⟨rfl, h.withState ⟨rfl, rfl⟩ ⟨rfl, rfl⟩, hnone⟩
      · refine ⟨rfl, h, ?_⟩
        rintro _ ⟨⟩ value hvalue
        obtain ⟨index, hindex⟩ := List.getElem?_of_mem hvalue
        exact hbelow.child (c := .array id) rfl
          (show start.state.heap.child? (.array id) (.item index) = _ from hindex)
    | _ => exact ⟨rfl, h.withState ⟨rfl, rfl⟩ ⟨rfl, rfl⟩, hnone⟩

/-- An update of a list on both pages. -/
theorem updateRepetition_abreast (hconfig : start'.config = start.config)
    (h : Abreast start start' page page') (hs : page.host.Sound) {clause : ForClause}
    {template placeholder : NodeId} {rendered : List NodeId}
    (hkind : (page.host.figure template).kind ≠ .text)
    (hasks : page.host.AsksOnly start.config allowed template)
    (hplaceholder : page.host.Live placeholder)
    (hout : ∀ c ∈ rendered, ¬ page.host.Below c placeholder)
    (hlist : ReadsAlike start.state.heap start'.state.heap start.state.scope start'.state.scope
      clause.list)
    (hallowed : ∀ source, allowed source → ∀ p ∈ (CompiledExpression.compile source).paths,
      p.root ≠ clause.item →
        ReadsAlike start.state.heap start'.state.heap start.state.scope start'.state.scope p) :
    let r := page.updateRepetition clause template placeholder rendered
    let r' := page'.updateRepetition clause template placeholder rendered
    r'.1 = r.1 ∧ r'.2.1 = r.2.1 ∧ Abreast start start' r.2.2 r'.2.2 := by
  have hhost := page.listAt_host clause.list
  obtain ⟨hitems, h₁, hbelow⟩ := listAt_abreast h hlist
  dsimp only
  rw [updateRepetition, updateRepetition]
  generalize page.listAt clause.list = found at *
  generalize page'.listAt clause.list = found' at *
  obtain ⟨values?, page₁⟩ := found
  obtain ⟨values?', page₁'⟩ := found'
  obtain rfl : values?' = values? := hitems
  cases values?' with
  | none => exact ⟨rfl, rfl, h₁⟩
  | some values =>
    dsimp only at hhost h₁ hbelow ⊢
    rw [h₁.host, hhost]
    have hcleared := HostTree.destroyAll_clears rendered hs
    have hcontent : ∀ {y}, (despiteFailures HostTree.destroy rendered page.host).2.Live y →
        (despiteFailures HostTree.destroy rendered page.host).2.content y = page.host.content y :=
      fun hy => (hcleared.kept _ (hcleared.left _ hy).2).1
    generalize despiteFailures HostTree.destroy rendered page.host = cleared at *
    obtain ⟨earlier, t₁⟩ := cleared
    have hcopyable : Copyable start.config allowed template placeholder t₁ := by
      refine ⟨hcleared.sound, ?_, fun hlive => ?_, hasks.less (.cleared hcleared)⟩
      · exact hplaceholder.of_content (hcleared.kept _ fun c hc _ => hout c hc).1
      · rw [HostTree.figure_eq_of_content_eq (hcontent hlive)]
        exact hkind
    refine renderItems_abreast hconfig earlier values (fun value hvalue source hsource => ?_) []
      (h₁.withHost t₁) hcopyable
    exact .of_readsAlike (hbelow values rfl value hvalue) (hallowed source hsource)

end Page

end ReactiveTemplate
