import ReactiveTemplate.Engine.Update
import ReactiveTemplate.Proofs.Document.Copies
import ReactiveTemplate.Proofs.Document.Removal
import ReactiveTemplate.Proofs.Engine.Pages

/-!
# Rendering copies of a template

What a copy of a template looks like for an item, and that rendering makes it look so.

* `Branch.rendered`: the shape of a rendered copy.
* `Branch.Plain`: shapes in which no element that shows a text contains another one.
* `Branch.Lasting`: shapes in which no element that shows a text goes when another one shows its own.
* `Page.renderCopy_spec`: rendering a copy gives the rendered shape.
* `Page.renderItems_spec`: one rendered copy for each item, in order behind an anchor.
-/

namespace ReactiveTemplate

/-! ## Rendered shapes -/

/-- The figure of a text. -/
def Figure.text (data : String) : Figure := ⟨.text, .empty, .empty, data, ""⟩

/-- The figure of an element that is shown or hidden. -/
def Figure.displayed (f : Figure) (visible : Bool) : Figure :=
  { f with
    styles := if visible then f.styles.erase "display" else f.styles.insert "display" "none" }

/-- The value of an attribute text in a scope. -/
def sourceValue (h : Heap) (scope : Scope) (source : String) : Value :=
  (CompiledExpression.compile source).evaluate h scope

/-- What lies below an element that shows a text: nothing for the empty one. -/
def Branch.ofText (text : String) : List (Branch Figure) :=
  if text = "" then [] else [.node (.text text) []]

/-- The figure of an element of a copy, shown or hidden as it asks for. -/
def Config.display (config : Config) (h : Heap) (scope : Scope) (f : Figure) : Figure :=
  match f.source? (config.attributeName .visibility) with
  | some source => f.displayed (sourceValue h scope source).isTruthy
  | none => f

/-- What an element of a copy has below it, if it shows a text. -/
def Config.content? (config : Config) (h : Heap) (scope : Scope) (f : Figure) :
    Option (List (Branch Figure)) :=
  (f.source? (config.attributeName .bind)).map fun source =>
    Branch.ofText ((sourceValue h scope source).textContent h)

/-- The shape of a template, rendered in a scope. -/
def Branch.rendered (config : Config) (h : Heap) (scope : Scope) (template : Branch Figure) :
    Branch Figure :=
  template.rewrite (config.display h scope) (config.content? h scope)

/-- No label that is picked has another one below it. -/
inductive Branch.Plain {β : Type} (picked : β → Bool) : Branch β → Prop
  | node {b : β} {bs : List (Branch β)} :
    (picked b = true → ∀ x ∈ bs, ∀ c ∈ x.labels, picked c = false) →
    (∀ x ∈ bs, Plain picked x) → Plain picked (.node b bs)

theorem Branch.rewrite_map {β γ δ : Type} (f : β → γ) (g : γ → δ)
    (cut : β → Option (List (Branch γ))) (x : Branch β) :
    (x.rewrite f cut).map g = x.rewrite (g ∘ f) fun b => (cut b).map (List.map (Branch.map g)) := by
  induction x using Branch.induction with
  | h b bs ih =>
    rw [rewrite_node, map_node, rewrite_node]
    congr 1
    cases cut b with
    | some cs => rfl
    | none =>
      simp only [Option.getD_none, Option.map_none, List.map_map]
      exact List.map_congr_left fun y hy => ih y hy

theorem Branch.rewrite_congr {β γ : Type} {f g : β → γ} {cut cut' : β → Option (List (Branch γ))}
    (x : Branch β) (h : ∀ b ∈ x.labels, f b = g b) (h' : ∀ b ∈ x.labels, cut b = cut' b) :
    x.rewrite f cut = x.rewrite g cut' := by
  induction x using Branch.induction with
  | h b bs ih =>
    have hsub : ∀ y ∈ bs, ∀ c ∈ y.labels, c ∈ (Branch.node b bs).labels := fun y hy c hc => by
      rw [labels_node]
      exact List.mem_cons_of_mem _ (List.mem_flatMap.2 ⟨y, hy, hc⟩)
    rw [rewrite_node, rewrite_node, h b (by simp), h' b (by simp)]
    congr 2
    exact List.map_congr_left fun y hy =>
      ih y hy (fun c hc => h c (hsub y hy c hc)) fun c hc => h' c (hsub y hy c hc)

/-! ## Listeners -/

/-- The nodes of a document have the listeners they had, and new nodes have none. -/
def HostTree.KeepsListeners {α : Type} (t t' : HostTree α) : Prop :=
  ∀ y n, t'.node? y = some n →
    n.listeners = [] ∨ ∃ m, t.node? y = some m ∧ n.listeners = m.listeners

namespace HostTree.KeepsListeners

variable {α : Type} {t t' t'' : HostTree α}

theorem refl (t : HostTree α) : t.KeepsListeners t := fun _ n hn => .inr ⟨n, hn, rfl⟩

theorem trans (h : t.KeepsListeners t') (h' : t'.KeepsListeners t'') : t.KeepsListeners t'' := by
  intro y n hn
  rcases h' y n hn with hempty | ⟨m, hm, heq⟩
  · exact .inl hempty
  · rcases h y m hm with hempty | ⟨k, hk, heq'⟩
    · exact .inl (heq.trans hempty)
    · exact .inr ⟨k, hk, heq.trans heq'⟩

theorem of_content (h : ∀ y, t'.Live y → t'.content y = t.content y) : t.KeepsListeners t' :=
  fun y n hn => .inr (listeners_of_content_eq hn (h y ⟨n, hn⟩))

theorem of_modify (t : HostTree α) (id : NodeId) {change : Node α → Node α}
    (h : ∀ n, (change n).listeners = n.listeners) : t.KeepsListeners (t.modify id change) := by
  intro y n hn
  rw [node?_modify] at hn
  split at hn
  · next heq =>
    obtain ⟨m, hm, rfl⟩ := Option.map_eq_some_iff.1 hn
    exact .inr ⟨m, heq ▸ hm, h m⟩
  · exact .inr ⟨n, hn, rfl⟩

end HostTree.KeepsListeners

theorem HostTree.TextSet.keepsListeners {α : Type} {t t' : HostTree α} {id : NodeId}
    {text : String} (h : t.TextSet t' id text) : t.KeepsListeners t' := by
  intro y n hn
  rcases h.rest y n hn with heq | hempty
  · exact .inr (HostTree.listeners_of_content_eq hn heq)
  · exact .inl hempty

/-- What an element contained, and was no text, is left on its own by a new text. -/
theorem HostTree.TextSet.leaves {α : Type} {t t' : HostTree α} {id : NodeId}
    {bs : List (Branch NodeId)} {text : String} (h : t.TextSet t' id text) (hl : t.Linked)
    (hb : t.Holds (.node id bs)) {d : Branch NodeId} (hd : d ∈ bs)
    (hkind : (t.figure d.label).kind ≠ .text) :
    t'.Holds d ∧ ∀ y ∈ d.labels, t'.figure y = t.figure y ∧ y ≠ id ∧ y ∉ t'.children id := by
  have htop := hb
  obtain @⟨_, _, -, hchildren, hbs⟩ := hb
  have hlabel : d.label ∈ t.children id := hchildren ▸ List.mem_map_of_mem hd
  have hne : ∀ y ∈ d.labels, y ≠ id := fun y hy heq => htop.label_not_mem hd (heq ▸ hy)
  -- A text of the element would be above the top of the other subtree, or below it.
  have hclear : ∀ y ∈ d.labels, t.ClearOf (t.children id) y := by
    intro y hy c hc n hn htext hbelow
    have happart : ∀ c ∈ t.children id, ∀ x ∈ t.children id, t.Below c x → x = c := by
      intro c hc x hx hbelow
      by_contra hne
      obtain ⟨q, hq, hcq⟩ := hl.below_parent hbelow hne
      rw [hl.child hx, Option.some.injEq] at hq
      rw [hchildren] at hc
      obtain ⟨d', hd', rfl⟩ := List.mem_map.1 hc
      exact htop.label_not_mem hd' ((hbs d' hd').mem_labels_iff.2 (hq ▸ hcq))
    have heq : c = d.label := by
      rcases hl.below_total hbelow ((hbs d hd).mem_labels_iff.1 hy) with hin | hin
      · exact (happart c hc _ hlabel hin).symm
      · exact happart _ hlabel c hc hin
    rw [← heq, HostTree.figure_of_node? hn] at hkind
    exact hkind htext
  have hleft := fun y hy => h.left y ((hbs d hd).live hy) (hne y hy) (hclear y hy)
  refine ⟨(hbs d hd).of_children (fun y hy => ((hbs d hd).live hy).of_content (hleft y hy).1)
    fun y hy => (hleft y hy).2, fun y hy => ⟨HostTree.figure_eq_of_content_eq (hleft y hy).1,
      hne y hy, fun hmem => ?_⟩⟩
  exact (h.fresh y hmem).2 y ((hbs d hd).live hy) (hclear y hy) rfl

theorem HostTree.Copied.keepsListeners {α : Type} {t t' : HostTree α} {b c : Branch NodeId}
    (h : t.Copied t' b c) : t.KeepsListeners t' := by
  intro y n hn
  rcases h.rest y n hn with heq | hempty
  · exact .inr ⟨n, heq, rfl⟩
  · exact .inl hempty

/-! ## Showing texts in a copy -/

/-- Whether an element shows a text. -/
def Config.showsText (config : Config) (f : Figure) : Bool :=
  (f.source? (config.attributeName .bind)).isSome

/-- An element that shows a text takes the texts away that it contains; no element that shows a text
    goes with them. -/
inductive Branch.Lasting (config : Config) : Branch Figure → Prop
  | node {f : Figure} {bs : List (Branch Figure)} :
    (config.showsText f = true → ∀ x ∈ bs, x.label.kind = .text →
      ∀ g ∈ x.labels, config.showsText g = false) →
    (∀ x ∈ bs, Lasting config x) → Lasting config (.node f bs)

theorem Branch.Plain.lasting {config : Config} {shape : Branch Figure}
    (h : shape.Plain config.showsText) : shape.Lasting config := by
  induction shape using Branch.induction with
  | h f bs ih =>
    obtain @⟨_, _, hbare, hplain⟩ := h
    exact .node (fun hshows x hx _ => hbare hshows x hx) fun x hx => ih x hx (hplain x hx)

theorem Figure.isElement_of_source? {α : Type} {n : Node α} {name source : String}
    (h : n.figure.source? name = some source) : n.isElement = true := by
  rw [source?, Node.figure] at h
  rw [Node.isElement]
  cases hkind : n.kind with
  | element tag => rfl
  | _ =>
    rw [hkind] at h
    cases h

namespace Page

/-- What rendering does to a subtree: it gets another shape, and no node outside of it is
    touched. -/
structure Reshaped (page page' : Page) (b c : Branch NodeId) (shape : Branch Figure) : Prop where
  calm : page.Calm page'
  linked : page'.host.Linked
  kept : ∀ y, page.host.Live y → y ∉ b.labels → page'.host.node? y = page.host.node? y
  holds : page'.host.Holds c
  label : c.label = b.label
  shape : c.map page'.host.figure = shape
  parent : page'.host.parent? b.label = page.host.parent? b.label
  new : ∀ y ∈ c.labels, y ∈ b.labels ∨ ¬ page.host.Live y
  listeners : page.host.KeepsListeners page'.host

/-- The same for several subtrees. -/
structure AllReshaped (page page' : Page) (bs cs : List (Branch NodeId))
    (shapes : List (Branch Figure)) : Prop where
  calm : page.Calm page'
  linked : page'.host.Linked
  kept : ∀ y, page.host.Live y → y ∉ bs.flatMap Branch.labels →
    page'.host.node? y = page.host.node? y
  holds : ∀ c ∈ cs, page'.host.Holds c
  tops : cs.map Branch.label = bs.map Branch.label
  shapes : cs.map (Branch.map page'.host.figure) = shapes
  new : ∀ y ∈ cs.flatMap Branch.labels, y ∈ bs.flatMap Branch.labels ∨ ¬ page.host.Live y
  listeners : page.host.KeepsListeners page'.host

variable {page page' page'' : Page} {scope : Scope}

/-- An element of a copy shows the text of its expression. -/
theorem renderElement_bind_spec (scope : Scope) (hc : page.cache.Sound) (hl : page.host.Linked)
    {id : NodeId} {source : String}
    (hsource : (page.host.figure id).source? (page.attributeName .bind) = some source)
    (habove : ∀ c ∈ page.host.children id, ¬ page.host.Below c id) :
    ∃ page', renderElement .bind scope page id = (.ok (), page') ∧ page.Calm page' ∧
      page.host.TextSet page'.host id
        ((sourceValue page.state.heap scope source).textContent page.state.heap) := by
  obtain ⟨n, hn⟩ : page.host.Live id := by
    rw [HostTree.Live]
    cases hn : page.host.node? id with
    | none =>
      rw [HostTree.figure, hn] at hsource
      cases hsource
    | some n => exact ⟨n, rfl⟩
  have hattribute := HostTree.attribute?_of_source? hsource
  rw [HostTree.figure_of_node? hn] at hsource
  obtain ⟨page₁, hcompile, hcalm₁, hhost₁⟩ := compile_spec hc source .loop
  obtain ⟨page₂, hevaluate, hcalm₂, hhost₂⟩ :=
    evaluate_spec hcalm₁.cache (CompiledExpression.compile source) scope
  have hcalm := hcalm₁.trans hcalm₂
  have hhost : page₂.host = page.host := hhost₂.trans hhost₁
  obtain ⟨t', hset, htext⟩ := HostTree.setText_spec hl hn
    (HostTree.kind_ne_of_isElement (Figure.isElement_of_source? hsource))
    habove ((sourceValue page.state.heap scope source).textContent page.state.heap)
  refine ⟨{ page₂ with host := t' }, ?_, hcalm.withHost t', htext⟩
  rw [hcalm₁.heap] at hevaluate
  simp only [renderElement, hattribute, hcompile, hevaluate, textOf, hcalm.heap, hhost]
  rw [show (CompiledExpression.compile source).evaluate page.state.heap scope =
    sourceValue page.state.heap scope source from rfl, hset]
  rfl

/-- A new content shows a text. -/
theorem TextSet.reshaped {id : NodeId} {bs : List (Branch NodeId)} {text : String}
    (hcalm : page.Calm page') (hb : page.host.Holds (.node id bs))
    (h : page.host.TextSet page'.host id text) :
    ∃ c, Reshaped page page' (.node id bs) c
        (.node (page.host.figure id) (Branch.ofText text)) ∧
      ∀ y ∈ c.labels, y = id ∨ y ∈ page'.host.children id := by
  have hid : page.host.Live id := hb.live_label
  have hid' : page'.host.Live id := hid.of_content h.content
  have hfigure := HostTree.figure_eq_of_content_eq h.content
  have hkept : ∀ y, page.host.Live y → y ∉ (Branch.node id bs).labels →
      page'.host.node? y = page.host.node? y := by
    intro y hy hout
    rw [hb.mem_labels_iff] at hout
    refine h.kept y hy (fun heq => hout (heq ▸ HostTree.Below.refl _ _)) fun c hc hbelow => ?_
    exact hout (Relation.ReflTransGen.head hc hbelow)
  rcases h.shows with ⟨htext, hempty⟩ | ⟨htext, leaf, hchildren, hleaf⟩
  · refine ⟨.node id [], ⟨hcalm, h.linked, hkept, .node hid' hempty nofun, rfl, ?_, h.parent,
      fun y hy => ?_, h.keepsListeners⟩, fun y hy => .inl (by simpa using hy)⟩
    · rw [Branch.map_node, hfigure, Branch.ofText, if_pos htext]
      rfl
    · rw [Branch.labels_node] at hy ⊢
      rw [List.mem_singleton.1 hy]
      exact .inl List.mem_cons_self
  · have hleafchildren : page'.host.children leaf = [] := HostTree.children_of_node? hleaf
    have hleaffigure : page'.host.figure leaf = Figure.text text :=
      HostTree.figure_of_node? hleaf
    refine ⟨.node id [.node leaf []], ⟨hcalm, h.linked, hkept, .node hid' hchildren ?_, rfl, ?_,
      h.parent, fun y hy => ?_, h.keepsListeners⟩, fun y hy => by rw [hchildren]; simpa using hy⟩
    · intro c hc
      rw [List.mem_singleton.1 hc]
      exact .node ⟨_, hleaf⟩ hleafchildren nofun
    · simp only [Branch.map_node, hfigure, hleaffigure, Branch.ofText, htext, if_false,
        List.map_cons, List.map_nil]
    · have hcases : y = id ∨ y = leaf := by simpa using hy
      rcases hcases with rfl | rfl
      · exact .inl (by simp)
      · by_cases hlive : page.host.Live y
        · left
          rw [hb.mem_labels_iff]
          by_contra hout
          refine (h.fresh y (by rw [hchildren]; simp)).2 y hlive (fun c hc n hn htext hbelow => ?_) rfl
          exact hout (Relation.ReflTransGen.head hc hbelow)
        · exact .inr hlive

theorem AllReshaped.cons {b c : Branch NodeId} {bs cs : List (Branch NodeId)}
    {shape : Branch Figure} {shapes : List (Branch Figure)} (h : Reshaped page page' b c shape)
    (h' : AllReshaped page' page'' bs cs shapes) (hbs : ∀ d ∈ bs, page.host.Holds d)
    (hnodup : ((b :: bs).flatMap Branch.labels).Nodup) :
    AllReshaped page page'' (b :: bs) (c :: cs) (shape :: shapes) := by
  rw [List.flatMap_cons, List.nodup_append] at hnodup
  have hlive : ∀ y, page.host.Live y → y ∉ b.labels → page'.host.Live y := fun y hy hout =>
    hy.of_node? (h.kept y hy hout)
  -- The nodes of the first subtree are none of the others, old or new.
  have hout : ∀ y ∈ c.labels, page''.host.node? y = page'.host.node? y := by
    intro y hy
    refine h'.kept y (h.holds.live hy) fun hmem => ?_
    rcases h.new y hy with hold | hnew
    · exact hnodup.2.2 y hold y hmem rfl
    · obtain ⟨d, hd, hyd⟩ := List.mem_flatMap.1 hmem
      exact hnew ((hbs d hd).live hyd)
  refine ⟨h.calm.trans h'.calm, h'.linked, fun y hy hmem => ?_, fun d hd => ?_, ?_, ?_,
    fun y hy => ?_, h.listeners.trans h'.listeners⟩
  · rw [List.flatMap_cons, List.mem_append, not_or] at hmem
    rw [h'.kept y (hlive y hy hmem.1) hmem.2, h.kept y hy hmem.1]
  · rcases List.mem_cons.1 hd with rfl | hd
    · exact h.holds.frame hout
    · exact h'.holds d hd
  · rw [List.map_cons, List.map_cons, h.label, h'.tops]
  · rw [List.map_cons, h'.shapes, ← h.shape]
    congr 1
    exact c.map_congr fun y hy => HostTree.figure_eq_of_node?_eq (hout y hy)
  · rw [List.flatMap_cons, List.mem_append] at hy ⊢
    rcases hy with hy | hy
    · rcases h.new y hy with hold | hnew
      · exact .inl (.inl hold)
      · exact .inr hnew
    · rcases h'.new y hy with hold | hnew
      · exact .inl (.inr hold)
      · by_cases hyb : y ∈ b.labels
        · exact .inl (.inl hyb)
        · exact .inr fun hy => hnew (hlive y hy hyb)

/-- The elements of a subtree that show a text, and their number in document order. -/
def textElements (page : Page) (ids : List NodeId) : List NodeId :=
  ids.filter fun id => page.config.showsText (page.host.figure id)

theorem textElements_append (page : Page) (xs ys : List NodeId) :
    page.textElements (xs ++ ys) = page.textElements xs ++ page.textElements ys :=
  List.filter_append ..

theorem textElements_cons {id : NodeId} (ids : List NodeId)
    (h : page.config.showsText (page.host.figure id) = true) :
    page.textElements (id :: ids) = id :: page.textElements ids :=
  List.filter_cons_of_pos h

theorem textElements_cons_of_not {id : NodeId} (ids : List NodeId)
    (h : ¬ page.config.showsText (page.host.figure id) = true) :
    page.textElements (id :: ids) = page.textElements ids :=
  List.filter_cons_of_neg h

/-- Subtrees without elements to show can be left out. -/
theorem textElements_filter {bs : List (Branch NodeId)} {kept : Branch NodeId → Bool}
    (hkept : ∀ d ∈ bs, kept d = true → page'.textElements d.labels = page.textElements d.labels)
    (hgone : ∀ d ∈ bs, kept d = false → page.textElements d.labels = []) :
    page.textElements (bs.flatMap Branch.labels) =
      page'.textElements ((bs.filter kept).flatMap Branch.labels) := by
  induction bs with
  | nil => rfl
  | cons d bs ih =>
    rw [List.flatMap_cons, textElements_append,
      ih (fun d hd => hkept d (List.mem_cons_of_mem _ hd))
        (fun d hd => hgone d (List.mem_cons_of_mem _ hd)), List.filter_cons]
    cases hd : kept d with
    | true => rw [if_pos rfl, List.flatMap_cons, textElements_append, hkept d List.mem_cons_self hd]
    | false => rw [if_neg Bool.false_ne_true, hgone d List.mem_cons_self hd, List.nil_append]

/-- The shape of a subtree whose elements show their texts. -/
def texted (page : Page) (scope : Scope) (b : Branch NodeId) : Branch Figure :=
  (b.map page.host.figure).rewrite id (page.config.content? page.state.heap scope)

/-- The elements of a subtree can be made to show their texts, in whatever page it lies. -/
def TextPass (scope : Scope) (b : Branch NodeId) : Prop :=
  ∀ page : Page, page.cache.Sound → page.host.Linked → page.host.Holds b →
    (b.map page.host.figure).Lasting page.config →
      ∃ page' c, untilFailure (renderElement .bind scope) (page.textElements b.labels) page =
          (.ok (), page') ∧
        Reshaped page page' b c (page.texted scope b)

/-- What is not touched has the same elements to show and the same shape with them. -/
theorem Reshaped.untouched {b c d : Branch NodeId} {shape : Branch Figure}
    (h : Reshaped page page' b c shape) (hd : page.host.Holds d)
    (hapart : ∀ y ∈ d.labels, y ∉ b.labels) :
    page'.host.Holds d ∧ d.map page'.host.figure = d.map page.host.figure ∧
      page'.textElements d.labels = page.textElements d.labels := by
  have hsame : ∀ y ∈ d.labels, page'.host.node? y = page.host.node? y := fun y hy =>
    h.kept y (hd.live hy) (hapart y hy)
  refine ⟨hd.frame hsame, d.map_congr fun y hy => HostTree.figure_eq_of_node?_eq (hsame y hy), ?_⟩
  refine List.filter_congr fun y hy => ?_
  rw [HostTree.figure_eq_of_node?_eq (hsame y hy), h.calm.config]

/-- What happens afterwards to parts of a subtree that are none of it any more. -/
theorem Reshaped.afterwards {b c : Branch NodeId} {shape : Branch Figure}
    {ds cs : List (Branch NodeId)} {shapes : List (Branch Figure)}
    (h : Reshaped page page' b c shape) (h' : AllReshaped page' page'' ds cs shapes)
    (hin : ∀ y ∈ ds.flatMap Branch.labels, y ∈ b.labels)
    (hout : ∀ y ∈ c.labels, y ∉ ds.flatMap Branch.labels) : Reshaped page page'' b c shape := by
  have hsame : ∀ y ∈ c.labels, page''.host.node? y = page'.host.node? y := fun y hy =>
    h'.kept y (h.holds.live hy) (hout y hy)
  refine ⟨h.calm.trans h'.calm, h'.linked, fun y hy hyb => ?_, h.holds.frame hsame, h.label, ?_, ?_,
    h.new, h.listeners.trans h'.listeners⟩
  · have hkept := h.kept y hy hyb
    obtain ⟨n, hn⟩ := hy
    rw [h'.kept y ⟨n, hkept.trans hn⟩ fun hmem => hyb (hin y hmem), hkept]
  · rw [← h.shape]
    exact c.map_congr fun y hy => HostTree.figure_eq_of_node?_eq (hsame y hy)
  · rw [HostTree.parent?_eq_of_node?_eq (hsame _ (h.label ▸ c.label_mem_labels)), h.parent]

theorem textPass_all {bs : List (Branch NodeId)} (hpass : ∀ b ∈ bs, TextPass scope b) :
    ∀ page : Page, page.cache.Sound → page.host.Linked →
      (∀ b ∈ bs, page.host.Holds b ∧ (b.map page.host.figure).Lasting page.config) →
      (bs.flatMap Branch.labels).Nodup →
        ∃ page' cs, untilFailure (renderElement .bind scope)
            (page.textElements (bs.flatMap Branch.labels)) page = (.ok (), page') ∧
          AllReshaped page page' bs cs (bs.map (page.texted scope)) := by
  induction bs with
  | nil =>
    intro page hc hl _ _
    exact ⟨page, [], rfl, Calm.refl hc, hl, fun _ _ _ => rfl, nofun, rfl, rfl, nofun,
      HostTree.KeepsListeners.refl _⟩
  | cons b bs ih =>
    intro page hc hl hbs hnodup
    obtain ⟨hb, hlasting⟩ := hbs b (by simp)
    obtain ⟨page₁, c, hfirst, h₁⟩ := hpass b (by simp) page hc hl hb hlasting
    have hnodup' := hnodup
    rw [List.flatMap_cons, List.nodup_append] at hnodup'
    have huntouched : ∀ d ∈ bs, page₁.host.Holds d ∧
        d.map page₁.host.figure = d.map page.host.figure ∧
          page₁.textElements d.labels = page.textElements d.labels := by
      intro d hd
      refine h₁.untouched (hbs d (List.mem_cons_of_mem _ hd)).1 fun y hy hyb => ?_
      exact hnodup'.2.2 y hyb y (List.mem_flatMap.2 ⟨d, hd, hy⟩) rfl
    obtain ⟨page', cs, hrest, h'⟩ := ih (fun d hd => hpass d (List.mem_cons_of_mem _ hd)) page₁
      h₁.calm.cache h₁.linked (fun d hd => by
        obtain ⟨hholds, hshape, -⟩ := huntouched d hd
        rw [hshape, h₁.calm.config]
        exact ⟨hholds, (hbs d (List.mem_cons_of_mem _ hd)).2⟩) hnodup'.2.1
    have helements : page₁.textElements (bs.flatMap Branch.labels) =
        page.textElements (bs.flatMap Branch.labels) := by
      simp only [textElements, List.filter_flatMap]
      exact List.flatMap_congr fun d hd => (huntouched d hd).2.2
    have hshapes : bs.map (page₁.texted scope) = bs.map (page.texted scope) := by
      refine List.map_congr_left fun d hd => ?_
      rw [texted, texted, (huntouched d hd).2.1, h₁.calm.config, h₁.calm.heap]
    refine ⟨page', c :: cs, ?_, ?_⟩
    · rw [helements] at hrest
      rw [List.flatMap_cons, textElements_append, untilFailure_append hfirst, hrest]
    · rw [hshapes] at h'
      exact AllReshaped.cons h₁ h' (fun d hd => (hbs d (List.mem_cons_of_mem _ hd)).1) hnodup

/-- An element shows its text, and then those that it contained show theirs, on their own. -/
theorem textPass_shown {id : NodeId} {bs : List (Branch NodeId)} {source : String}
    (hpass : ∀ b ∈ bs, TextPass scope b) (hc : page.cache.Sound) (hl : page.host.Linked)
    (hb : page.host.Holds (.node id bs))
    (hlasting : ((Branch.node id bs).map page.host.figure).Lasting page.config)
    (hsource : (page.host.figure id).source? (page.config.attributeName .bind) = some source) :
    ∃ page' c, untilFailure (renderElement .bind scope)
        (page.textElements (Branch.node id bs).labels) page = (.ok (), page') ∧
      Reshaped page page' (.node id bs) c (page.texted scope (.node id bs)) := by
  have hshows : page.config.showsText (page.host.figure id) = true := by
    rw [Config.showsText, hsource]
    rfl
  have htop := hb
  obtain @⟨_, _, -, hchildren, hbelow⟩ := hb
  rw [Branch.map_node] at hlasting
  obtain @⟨_, _, hspared, hlasting⟩ := hlasting
  have hnodup := htop.nodup hl
  rw [Branch.labels_node, List.nodup_cons] at hnodup
  have habove : ∀ c ∈ page.host.children id, ¬ page.host.Below c id := by
    intro c hc hbelow'
    rw [hchildren] at hc
    obtain ⟨d, hd, rfl⟩ := List.mem_map.1 hc
    exact htop.label_not_mem hd ((hbelow d hd).mem_labels_iff.2 hbelow')
  obtain ⟨page₁, hrender, hcalm, htext⟩ := renderElement_bind_spec scope hc hl hsource habove
  obtain ⟨c, hreshaped, hlabels⟩ := TextSet.reshaped hcalm htop htext
  let ds := bs.filter fun d => (page.host.figure d.label).kind ≠ .text
  have hds : ∀ d ∈ ds, d ∈ bs ∧ (page.host.figure d.label).kind ≠ .text := fun d hd =>
    ⟨(List.mem_filter.1 hd).1, of_decide_eq_true (List.mem_filter.1 hd).2⟩
  have hleft := fun d hd => htext.leaves hl htop (hds d hd).1 (hds d hd).2
  have hshape : ∀ d ∈ ds, d.map page₁.host.figure = d.map page.host.figure := fun d hd =>
    d.map_congr fun y hy => ((hleft d hd).2 y hy).1
  have helements : page.textElements (bs.flatMap Branch.labels) =
      page₁.textElements (ds.flatMap Branch.labels) := by
    refine textElements_filter (fun d hd hkind => ?_) fun d hd hkind => ?_
    · refine List.filter_congr fun y hy => ?_
      rw [((hleft d (List.mem_filter.2 ⟨hd, hkind⟩)).2 y hy).1, hcalm.config]
    · have htext : (d.map page.host.figure).label.kind = .text := by
        rw [Branch.label_map]
        exact not_not.1 (of_decide_eq_false hkind)
      refine List.filter_eq_nil_iff.2 fun y hy => ?_
      rw [hspared hshows _ (List.mem_map_of_mem hd) htext _
        (by rw [Branch.labels_map]; exact List.mem_map_of_mem hy)]
      exact Bool.false_ne_true
  obtain ⟨page', cs, hrest, h'⟩ := textPass_all (fun d hd => hpass d (hds d hd).1) page₁
    hcalm.cache htext.linked (fun d hd => ⟨(hleft d hd).1, by
      rw [hshape d hd, hcalm.config]
      exact hlasting _ (List.mem_map_of_mem (hds d hd).1)⟩)
    (List.nodup_flatMap.2 ⟨fun d hd => (List.nodup_flatMap.1 hnodup.2).1 d (hds d hd).1,
      (List.nodup_flatMap.1 hnodup.2).2.filter _⟩)
  refine ⟨page', c, ?_, ?_⟩
  · rw [Branch.labels_node, textElements_cons _ hshows, untilFailure_cons hrender, helements, hrest]
  · have htexted : page.texted scope (.node id bs) = .node (page.host.figure id)
        (Branch.ofText ((sourceValue page.state.heap scope source).textContent
          page.state.heap)) := by
      rw [texted, Branch.map_node, Branch.rewrite_node, Config.content?, hsource,
        Option.map_some, Option.getD_some, id_eq]
    rw [htexted]
    refine hreshaped.afterwards h' (fun y hy => ?_) fun y hy hmem => ?_
    · obtain ⟨d, hd, hyd⟩ := List.mem_flatMap.1 hy
      rw [Branch.labels_node]
      exact List.mem_cons_of_mem _ (List.mem_flatMap.2 ⟨d, (hds d hd).1, hyd⟩)
    · obtain ⟨d, hd, hyd⟩ := List.mem_flatMap.1 hmem
      obtain ⟨-, hne, hout⟩ := (hleft d hd).2 y hyd
      exact (hlabels y hy).elim hne hout

theorem textPass (scope : Scope) (b : Branch NodeId) : TextPass scope b := by
  induction b using Branch.induction with
  | h id bs ih =>
    intro page hc hl hb hlasting
    cases hsource : (page.host.figure id).source? (page.config.attributeName .bind) with
    | some source => exact textPass_shown ih hc hl hb hlasting hsource
    | none =>
      have hshows : ¬ page.config.showsText (page.host.figure id) = true := by
        rw [Config.showsText, hsource]
        exact Bool.false_ne_true
      have hnodup := hb.nodup hl
      rw [Branch.labels_node, List.nodup_cons] at hnodup
      rw [Branch.map_node] at hlasting
      obtain @⟨_, _, hlive, hchildren, hbelow⟩ := hb
      obtain @⟨_, _, -, hlasting⟩ := hlasting
      obtain ⟨page', cs, hall, h⟩ := textPass_all ih page hc hl (fun d hd =>
        ⟨hbelow d hd, hlasting _ (List.mem_map_of_mem hd)⟩) hnodup.2
      have hsame : page'.host.node? id = page.host.node? id := h.kept id hlive hnodup.1
      have hlive' : page'.host.Live id := hlive.of_node? hsame
      refine ⟨page', .node id cs, ?_, h.calm, h.linked, fun y hy hout => ?_,
        .node hlive' ?_ h.holds, rfl, ?_, HostTree.parent?_eq_of_node?_eq hsame, fun y hy => ?_,
        h.listeners⟩
      · rw [Branch.labels_node, textElements_cons_of_not _ hshows, hall]
      · rw [Branch.labels_node, List.mem_cons, not_or] at hout
        exact h.kept y hy hout.2
      · rw [HostTree.children_eq_of_node?_eq hsame, hchildren, h.tops]
      · rw [Branch.map_node, h.shapes, HostTree.figure_eq_of_node?_eq hsame, texted,
          Branch.map_node, Branch.rewrite_node, Config.content?, hsource, Option.map_none,
          Option.getD_none, List.map_map, id_eq]
        rfl
      · rw [Branch.labels_node, List.mem_cons] at hy ⊢
        rcases hy with rfl | hy
        · exact .inl (.inl rfl)
        · rcases h.new y hy with hold | hnew
          · exact .inl (.inr hold)
          · exact .inr hnew

end Page

end ReactiveTemplate
