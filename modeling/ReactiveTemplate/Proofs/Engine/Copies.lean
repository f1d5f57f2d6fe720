import Mathlib.Data.List.Forall2
import ReactiveTemplate.Proofs.Engine.Rendering

/-!
# Copies for the items of a list

Elements of a rendered copy that are shown or hidden, whole copies, and a copy for each item.

* `HostTree.setStyle_display`: showing and hiding an element.
* `Page.renderCopy_spec`: a rendered copy has the rendered shape.
* `Page.renderItems_spec`: one rendered copy for each item, in order behind an anchor.
-/

namespace ReactiveTemplate

/-! ## Showing and hiding -/

/-- The document with an element shown or hidden. -/
def HostTree.display {α : Type} (t : HostTree α) (id : NodeId) (visible : Bool) : HostTree α :=
  t.modify id fun n => { n with styles := (n.figure.displayed visible).styles }

namespace HostTree

variable {α : Type} {t : HostTree α} {id : NodeId}

theorem setStyle_display (hid : t.Live id) (visible : Bool) :
    t.setStyle id "display" (if visible then "" else "none") = .ok (t.display id visible) := by
  obtain ⟨n, hn⟩ := hid
  rw [setStyle, update, get_of_node? hn]
  cases visible <;> rfl

theorem node?_display_of_ne {y : NodeId} (h : y ≠ id) (visible : Bool) :
    (t.display id visible).node? y = t.node? y :=
  node?_modify_of_ne h _

theorem figure_display (hid : t.Live id) (visible : Bool) :
    (t.display id visible).figure id = (t.figure id).displayed visible := by
  obtain ⟨n, hn⟩ := hid
  have hnode : (t.display id visible).node? id =
      some { n with styles := (n.figure.displayed visible).styles } := by
    rw [display, node?_modify_self, hn]
    rfl
  rw [figure_of_node? hnode, figure_of_node? hn]
  rfl

theorem children_display (t : HostTree α) (id : NodeId) (visible : Bool) (q : NodeId) :
    (t.display id visible).children q = t.children q := by
  rw [children, display, node?_modify]
  split
  · next h =>
    rw [h, children]
    cases t.node? id <;> rfl
  · rfl

theorem parent?_display (t : HostTree α) (id : NodeId) (visible : Bool) (y : NodeId) :
    (t.display id visible).parent? y = t.parent? y := by
  rw [parent?, display, node?_modify]
  split
  · next h =>
    rw [h, parent?]
    cases t.node? id <;> rfl
  · rfl

theorem Linked.display (hl : t.Linked) (id : NodeId) (visible : Bool) :
    (t.display id visible).Linked :=
  hl.modify id (fun _ => rfl) fun _ => rfl

theorem live_display {y : NodeId} (hy : t.Live y) (id : NodeId) (visible : Bool) :
    (t.display id visible).Live y := by
  obtain ⟨n, hn⟩ := hy
  rw [Live, HostTree.display, node?_modify]
  split
  · next h => exact ⟨_, by rw [← h, hn]; rfl⟩
  · exact ⟨n, hn⟩

theorem keepsListeners_display (t : HostTree α) (id : NodeId) (visible : Bool) :
    t.KeepsListeners (t.display id visible) :=
  KeepsListeners.of_modify t id fun _ => rfl

theorem live_of_source? {name source : String} (h : (t.figure id).source? name = some source) :
    t.Live id := by
  cases hn : t.node? id with
  | none =>
    rw [figure, hn] at h
    cases h
  | some n => exact ⟨n, hn⟩

end HostTree

namespace Page

variable {page page' : Page} {scope : Scope}

theorem setVisible_spec {id : NodeId} (hid : page.host.Live id) (visible : Bool) :
    page.setVisible id visible = (.ok (), { page with host := page.host.display id visible }) := by
  rw [setVisible, HostTree.setStyle_display hid, edit]

/-- An element of a copy is shown or hidden by its expression. -/
theorem renderElement_visibility_spec (scope : Scope) (hc : page.cache.Sound) {id : NodeId}
    {source : String}
    (hsource : (page.host.figure id).source? (page.attributeName .visibility) = some source) :
    ∃ page', renderElement .visibility scope page id = (.ok (), page') ∧ page.Calm page' ∧
      page'.host = page.host.display id (sourceValue page.state.heap scope source).isTruthy := by
  have hlive := HostTree.live_of_source? hsource
  have hattribute := HostTree.attribute?_of_source? hsource
  obtain ⟨page₁, hcompile, hcalm₁, hhost₁⟩ := compile_spec hc source .loop
  obtain ⟨page₂, hevaluate, hcalm₂, hhost₂⟩ :=
    evaluate_spec hcalm₁.cache (CompiledExpression.compile source) scope
  have hcalm := hcalm₁.trans hcalm₂
  have hhost : page₂.host = page.host := hhost₂.trans hhost₁
  rw [hcalm₁.heap] at hevaluate
  refine ⟨_, ?_, hcalm.withHost _, rfl⟩
  simp only [renderElement, hattribute, hcompile, hevaluate]
  rw [setVisible_spec (hhost ▸ hlive), hhost]
  rfl

/-- What showing and hiding some elements does. -/
structure Displayed (page page' : Page) (scope : Scope) (ids : List NodeId) : Prop where
  calm : page.Calm page'
  linked : page'.host.Linked
  children : ∀ q, page'.host.children q = page.host.children q
  parent : ∀ y, page'.host.parent? y = page.host.parent? y
  live : ∀ y, page.host.Live y → page'.host.Live y
  kept : ∀ y, y ∉ ids → page'.host.node? y = page.host.node? y
  figure : ∀ y ∈ ids, page'.host.figure y =
    page.config.display page.state.heap scope (page.host.figure y)
  listeners : page.host.KeepsListeners page'.host

theorem displayPass (scope : Scope) (ids : List NodeId) :
    ∀ page : Page, page.cache.Sound → page.host.Linked → ids.Nodup →
      (∀ id ∈ ids, ((page.host.figure id).source? (page.attributeName .visibility)).isSome) →
        ∃ page', untilFailure (renderElement .visibility scope) ids page = (.ok (), page') ∧
          Displayed page page' scope ids := by
  induction ids with
  | nil =>
    intro page hc hl _ _
    exact ⟨page, rfl, Calm.refl hc, hl, fun _ => rfl, fun _ => rfl, fun _ h => h, fun _ _ => rfl,
      nofun, HostTree.KeepsListeners.refl _⟩
  | cons id ids ih =>
    intro page hc hl hnodup hsome
    rw [List.nodup_cons] at hnodup
    obtain ⟨source, hsource⟩ := Option.isSome_iff_exists.1 (hsome id (by simp))
    obtain ⟨page₁, hrender, hcalm₁, hhost₁⟩ := renderElement_visibility_spec scope hc
      hsource
    have hlive := HostTree.live_of_source? hsource
    have hne : ∀ y ∈ ids, y ≠ id := by
      rintro y hy rfl
      exact hnodup.1 hy
    have hfigure₁ : ∀ y ∈ ids, page₁.host.figure y = page.host.figure y := by
      intro y hy
      rw [hhost₁]
      exact HostTree.figure_eq_of_node?_eq (HostTree.node?_display_of_ne (hne y hy) _)
    obtain ⟨page', hrest, h'⟩ := ih page₁ hcalm₁.cache (hhost₁ ▸ hl.display id _) hnodup.2
      fun y hy => by
        rw [hfigure₁ y hy, attributeName, hcalm₁.config]
        exact hsome y (List.mem_cons_of_mem _ hy)
    refine ⟨page', ?_, hcalm₁.trans h'.calm, h'.linked, fun q => ?_, fun y => ?_, fun y hy => ?_,
      fun y hy => ?_, fun y hy => ?_, ?_⟩
    · rw [untilFailure_cons hrender, hrest]
    · rw [h'.children, hhost₁, HostTree.children_display]
    · rw [h'.parent, hhost₁, HostTree.parent?_display]
    · exact h'.live y (hhost₁ ▸ HostTree.live_display hy id _)
    · rw [List.mem_cons, not_or] at hy
      rw [h'.kept y hy.2, hhost₁, HostTree.node?_display_of_ne hy.1]
    · rcases List.mem_cons.1 hy with rfl | hy
      · rw [HostTree.figure_eq_of_node?_eq (h'.kept y hnodup.1), hhost₁,
          HostTree.figure_display hlive, Config.display]
        rw [attributeName] at hsource
        rw [hsource]
      · rw [h'.figure y hy, hfigure₁ y hy, hcalm₁.config, hcalm₁.heap]
    · refine HostTree.KeepsListeners.trans ?_ h'.listeners
      rw [hhost₁]
      exact HostTree.keepsListeners_display _ _ _

/-! ## Whole copies -/

theorem display_text (config : Config) (h : Heap) (data : String) :
    config.display h scope (.text data) = .text data := rfl

theorem ofText_map_display (config : Config) (h : Heap) (text : String) :
    (Branch.ofText text).map (Branch.map (config.display h scope)) = Branch.ofText text := by
  rw [Branch.ofText]
  split
  · rw [List.map_nil]
  · rw [List.map_singleton, Branch.map_node, display_text, List.map_nil]

theorem texted_map_display (b : Branch NodeId) :
    (page.texted scope b).map (page.config.display page.state.heap scope) =
      (b.map page.host.figure).rendered page.config page.state.heap scope := by
  rw [texted, Branch.rewrite_map, Branch.rendered, Function.comp_id]
  refine Branch.rewrite_congr _ (fun _ _ => rfl) fun f _ => ?_
  rw [Config.content?, Option.map_map]
  cases f.source? (page.config.attributeName .bind) with
  | none => rw [Option.map_none, Option.map_none]
  | some source => rw [Option.map_some, Option.map_some, Function.comp_apply, ofText_map_display]

/-- A copy rendered for an item. -/
theorem renderCopy_spec (hc : page.cache.Sound) (hl : page.host.Linked) {b : Branch NodeId}
    (hb : page.host.Holds b) (hlasting : (b.map page.host.figure).Lasting page.config)
    (item : String) (value : Value) :
    ∃ page' c, page.renderCopy b.label item value = (.ok (), page') ∧
      Reshaped page page' b c ((b.map page.host.figure).rendered page.config page.state.heap
        (.item item value page.state.scope)) := by
  let scope := Scope.item item value page.state.scope
  obtain ⟨page₁, c, htexts, h₁⟩ := textPass scope b page hc hl hb hlasting
  let ids := c.labels.filter fun id =>
    ((page₁.host.figure id).source? (page₁.attributeName .visibility)).isSome
  have hids : ∀ y ∈ ids, y ∈ c.labels := fun y hy => (List.mem_filter.1 hy).1
  obtain ⟨page', hdisplays, h'⟩ := displayPass scope ids page₁ h₁.calm.cache h₁.linked
    ((h₁.holds.nodup h₁.linked).filter _) fun y hy => (List.mem_filter.1 hy).2
  refine ⟨page', c, ?_, h₁.calm.trans h'.calm, h'.linked, fun y hy hout => ?_,
    h₁.holds.of_children (fun y hy => h'.live y (h₁.holds.live hy)) fun y _ => h'.children y,
    h₁.label, ?_, ?_, h₁.new, h₁.listeners.trans h'.listeners⟩
  · have hfirst : renderKind scope b.label page .bind = (.ok (), page₁) := by
      rw [renderKind, hb.withAttribute hl]
      exact htexts
    have hsecond : renderKind scope b.label page₁ .visibility = (.ok (), page') := by
      rw [renderKind, ← h₁.label, h₁.holds.withAttribute h₁.linked]
      exact hdisplays
    rw [renderCopy, templateKinds, untilFailure_cons hfirst, untilFailure_cons hsecond,
      untilFailure_nil]
  · have hyc : y ∉ c.labels := fun hmem => (h₁.new y hmem).elim hout (fun hnew => hnew hy)
    rw [h'.kept y fun hmem => hyc (hids y hmem), h₁.kept y hy hout]
  · rw [← texted_map_display, ← h₁.shape, Branch.map_map]
    refine c.map_congr fun y hy => ?_
    by_cases hmem : y ∈ ids
    · rw [h'.figure y hmem, h₁.calm.config, h₁.calm.heap]
      rfl
    · rw [HostTree.figure_eq_of_node?_eq (h'.kept y hmem), Function.comp, Config.display]
      have hnone : (page₁.host.figure y).source? (page.config.attributeName .visibility) = none := by
        rw [← h₁.calm.config]
        by_contra hsome
        exact hmem (List.mem_filter.2 ⟨hy, Option.isSome_iff_ne_none.2 hsome⟩)
      rw [hnone]
  · rw [h'.parent, h₁.parent]

/-! ## A copy for each item -/

/-- What putting copies among the children of a node does, apart from the children: each copy
    has the shape of its item, and nothing but the node itself is touched. -/
structure ItemsPlaced (page page' : Page) (p : NodeId) (shapeOf : Value → Branch Figure)
    (copies : List NodeId) (values : List Value) : Prop where
  calm : page.Calm page'
  linked : page'.host.Linked
  kept : ∀ y, page.host.Live y → y ≠ p → page'.host.node? y = page.host.node? y
  content : page'.host.content p = page.host.content p
  parent : page'.host.parent? p = page.host.parent? p
  drawn : List.Forall₂ (fun x value => page'.host.Draws x (shapeOf value)) copies values
  new : ∀ x ∈ copies, ∀ y, page'.host.Below x y → ¬ page.host.Live y
  listeners : page.host.KeepsListeners page'.host

/-- One copy, made, rendered and put behind an anchor. -/
theorem placeItem_spec (hc : page.cache.Sound) (hl : page.host.Linked) {b : Branch NodeId}
    (hb : page.host.Holds b) (hlasting : (b.map page.host.figure).Lasting page.config)
    {p anchor : NodeId} {front back : List NodeId}
    (hchildren : page.host.children p = front ++ anchor :: back) (item : String) (value : Value) :
    ∃ page₁ copy page', page.editPartly (page.host.cloneNode b.label) = (.ok copy, page₁) ∧
      page₁.placeCopy anchor copy item value = (.ok (), page') ∧
      page'.host.children p = front ++ anchor :: copy :: back ∧
      ItemsPlaced page page' p (fun value => (b.map page.host.figure).rendered page.config
        page.state.heap (.item item value page.state.scope)) [copy] [value] := by
  obtain ⟨c, t₁, hclone, hcopied⟩ := HostTree.cloneNode_spec hl hb
  let page₁ : Page := { page with host := t₁ }
  have hc₁ : page₁.cache.Sound := hc
  obtain ⟨page₂, d, hrender, h₂⟩ := renderCopy_spec hc₁ hcopied.linked hcopied.holds
    (by rw [hcopied.shape]; exact hlasting) item value
  have hp : page.host.Live p :=
    HostTree.live_of_mem_children (c := anchor) (by rw [hchildren]; simp)
  have hlive₁ : ∀ y, page.host.Live y → t₁.Live y := fun y hy => hy.of_node? (hcopied.kept y hy)
  -- The nodes of the document are none of the copy, before and after it is rendered.
  have hkept₂ : ∀ y, page.host.Live y → page₂.host.node? y = page.host.node? y := by
    intro y hy
    rw [h₂.kept y (hlive₁ y hy) fun hmem => hcopied.fresh y hmem hy]
    exact hcopied.kept y hy
  have hnew : ∀ y ∈ d.labels, ¬ page.host.Live y := by
    intro y hy hlive
    rcases h₂.new y hy with hold | hnew
    · exact hcopied.fresh y hold hlive
    · exact hnew (hlive₁ y hlive)
  have hchildren₂ : page₂.host.children p = front ++ anchor :: back := by
    rw [HostTree.children_eq_of_node?_eq (hkept₂ p hp), hchildren]
  have hlabel : c.label ∈ d.labels := h₂.label ▸ d.label_mem_labels
  obtain ⟨t', hinsert, h'⟩ := HostTree.insertAfter_spec h₂.linked hchildren₂
    (h₂.holds.live hlabel) (h₂.parent.trans hcopied.loose) (by
      intro heq
      exact hnew c.label hlabel (heq ▸ hl.rooted))
  have hne : ∀ y, page.host.Live y → y ≠ c.label := fun y hy heq => hnew c.label hlabel (heq ▸ hy)
  have hholds : t'.Holds d := by
    refine h₂.holds.of_children (fun y hy => (h₂.holds.live hy).of_content (h'.content y))
      fun y hy => ?_
    have hyp : y ≠ p := by
      rintro rfl
      exact hnew y hy hp
    rw [h'.children, if_neg hyp]
  refine ⟨page₁, c.label, { page₂ with host := t' }, ?_, ?_, ?_, ?_, h'.linked,
    fun y hy hyp => ?_, ?_, ?_, ?_, fun x hx y hy => ?_, ?_⟩
  · rw [hclone, editPartly]
  · rw [placeCopy, hrender]
    dsimp only
    rw [hinsert, editPartly]
  · show t'.children p = _
    rw [h'.children, if_pos rfl]
  · exact h₂.calm.afterHost.withHost t'
  · rw [← hkept₂ y hy]
    refine HostTree.node?_eq_of_content_eq (h'.content y) ?_ ?_
    · rw [h'.parent, if_neg (hne y hy)]
    · rw [h'.children, if_neg hyp]
  · show t'.content p = _
    rw [h'.content, HostTree.content_eq_of_node?_eq (hkept₂ p hp)]
  · show t'.parent? p = _
    rw [h'.parent, if_neg (hne p hp), HostTree.parent?_eq_of_node?_eq (hkept₂ p hp)]
  · refine .cons ⟨d, hholds, h₂.label, ?_⟩ .nil
    show d.map t'.figure = _
    rw [d.map_congr fun y _ => HostTree.figure_eq_of_content_eq (h'.content y), h₂.shape]
    show (c.map t₁.figure).rendered _ _ _ = _
    rw [hcopied.shape]
  · rw [List.mem_singleton.1 hx, ← h₂.label] at hy
    exact hnew y (hholds.mem_labels_iff.2 hy)
  · refine hcopied.keepsListeners.trans (h₂.listeners.trans ?_)
    exact HostTree.KeepsListeners.of_content fun y _ => h'.content y

variable {page'' : Page} {p : NodeId} {shapeOf : Value → Branch Figure}

theorem ItemsPlaced.cons {x : NodeId} {xs : List NodeId} {value : Value} {values : List Value}
    (h : ItemsPlaced page page' p shapeOf [x] [value]) (hp : page.host.Live p)
    (h' : ItemsPlaced page' page'' p shapeOf xs values) :
    ItemsPlaced page page'' p shapeOf (x :: xs) (value :: values) := by
  have hlive : ∀ y, page.host.Live y → page'.host.Live y := by
    intro y hy
    by_cases hyp : y = p
    · exact hyp ▸ hp.of_content h.content
    · exact hy.of_node? (h.kept y hy hyp)
  obtain ⟨d, hd, rfl, hshape⟩ : page'.host.Draws x (shapeOf value) := by
    cases h.drawn with
    | cons hdrawn _ => exact hdrawn
  have hsame : ∀ y ∈ d.labels, page''.host.node? y = page'.host.node? y := by
    intro y hy
    refine h'.kept y (hd.live hy) ?_
    rintro rfl
    exact h.new d.label (by simp) y (hd.mem_labels_iff.1 hy) hp
  have hd' := hd.frame hsame
  refine ⟨h.calm.trans h'.calm, h'.linked, fun y hy hyp => ?_, ?_, ?_, ?_, fun z hz y hy => ?_,
    h.listeners.trans h'.listeners⟩
  · rw [h'.kept y (hlive y hy) hyp, h.kept y hy hyp]
  · rw [h'.content, h.content]
  · rw [h'.parent, h.parent]
  · refine .cons ⟨d, hd', rfl, ?_⟩ h'.drawn
    rw [← hshape]
    exact d.map_congr fun y hy => HostTree.figure_eq_of_node?_eq (hsame y hy)
  · rcases List.mem_cons.1 hz with rfl | hz
    · have hmem := hd'.mem_labels_iff.2 hy
      exact h.new d.label (by simp) y (hd.mem_labels_iff.1 hmem)
    · exact fun hlive' => h'.new z hz y hy (hlive y hlive')

/-- A copy for each value, in order behind an anchor. -/
theorem renderItems_spec (item : String) (earlier : Option HostError) {b : Branch NodeId}
    {back : List NodeId} {config : Config} {heap : Heap} {shape : Branch Figure}
    (hlasting : shape.Lasting config) (hp : p ∉ b.labels) (values : List Value) :
    ∀ {page : Page} {anchor : NodeId} {front : List NodeId} (rendered : List NodeId),
      page.cache.Sound → page.host.Linked → page.config = config → page.state.heap = heap →
      page.state.scope = scope → page.host.Holds b → b.map page.host.figure = shape →
      page.host.children p = front ++ anchor :: back →
        ∃ page' copies, renderItems item b.label earlier values anchor rendered page =
            (outcome earlier, rendered ++ copies, page') ∧
          page'.host.children p = front ++ anchor :: (copies ++ back) ∧
          ItemsPlaced page page' p (fun value => shape.rendered config heap
            (.item item value scope)) copies values := by
  induction values with
  | nil =>
    intro page anchor front rendered hc hl _ _ _ _ _ hchildren
    refine ⟨page, [], ?_, hchildren, Calm.refl hc, hl, fun _ _ _ => rfl, rfl, rfl, .nil, nofun,
      HostTree.KeepsListeners.refl _⟩
    rw [renderItems, List.append_nil]
  | cons value values ih =>
    rintro page anchor front rendered hc hl rfl rfl rfl hb rfl hchildren
    obtain ⟨page₁, copy, page₂, hclone, hplace, hchildren₂, h₂⟩ :=
      placeItem_spec hc hl hb hlasting hchildren item value
    have hlive : page.host.Live p :=
      HostTree.live_of_mem_children (c := anchor) (by rw [hchildren]; simp)
    have hsame : ∀ y ∈ b.labels, page₂.host.node? y = page.host.node? y := by
      intro y hy
      refine h₂.kept y (hb.live hy) ?_
      rintro rfl
      exact hp hy
    rw [List.append_cons] at hchildren₂
    obtain ⟨page', copies, hrest, hchildren', h'⟩ := ih (rendered ++ [copy]) h₂.calm.cache
      h₂.linked h₂.calm.config h₂.calm.heap h₂.calm.scope (hb.frame hsame)
      (b.map_congr fun y hy => HostTree.figure_eq_of_node?_eq (hsame y hy)) hchildren₂
    refine ⟨page', copy :: copies, ?_, ?_, h₂.cons hlive h'⟩
    · rw [renderItems, hclone]
      dsimp only
      rw [hplace]
      dsimp only
      rw [hrest, List.append_assoc]
      rfl
    · rw [hchildren', List.append_assoc]
      rfl

end Page

end ReactiveTemplate
