import ReactiveTemplate.Engine.Registration
import ReactiveTemplate.Proofs.Engine.Scanning
import ReactiveTemplate.Proofs.Engine.Updates
import ReactiveTemplate.Proofs.State.Reactions

/-!
# Further bindings

What holds while bindings are made. No text is shown yet, so all nodes of the first document
are there, with the figures they had.

* `Binding.AskedFor`: what a binding shows and reads follows from its attribute.
* `CompiledExpression.grammatical`, `HostTree.Grammatical`: paths that can be spelled.
* `Page.Registering`: the invariant while bindings are made.
* `HostTree.Resembles`: documents with more nodes or listeners.
* `Kept.resembles`, `Kept.add`: they keep the invariant, and so does a further binding.
-/

namespace ReactiveTemplate

variable {config : Config} {t₀ t t' : HostTree Reaction} {bs : List Binding} {b c : Binding}
  {ds : List Declaration} {d : Declaration} {x y p o : NodeId}

/-! ## What was asked for -/

/-- The paths that a binding reads include given ones, unless every flush updates it. -/
def Binding.Covers (b : Binding) (paths : List String) : Prop :=
  ∀ reads, b.reads = some reads → ∀ path ∈ paths, path ∈ reads

/-- What a binding shows and reads follows from the attribute that asked for it. -/
def Binding.AskedFor (config : Config) (t₀ : HostTree Reaction) (b : Binding) : Prop :=
  match b.directive with
  | .text e _ | .visibility e | .presence e _ _ | .model e _ =>
    e = .compile b.source ∧ b.Covers e.dependencies
  | .repetition clause _ _ _ =>
    parseForClause (Text.trim b.source) = .ok clause ∧ b.Covers [clause.list.dotted] ∧
      ∀ shape, t₀.Draws b.node shape → ∀ f ∈ shape.labels, ∀ kind ∈ Page.templateKinds,
        ∀ source, f.source? (config.attributeName kind) = some source →
          b.Covers ((CompiledExpression.compile source).dependenciesOutside clause.item)
  | .events _ => True

/-- What was asked for does not depend on what a binding remembers. -/
theorem Binding.askedFor_of_forget (h : b.forget = c.forget) :
    b.AskedFor config t₀ ↔ c.AskedFor config t₀ := by
  have hforget : ∀ b : Binding, b.forget.AskedFor config t₀ ↔ b.AskedFor config t₀ := by
    intro b
    unfold AskedFor forget
    dsimp only
    cases b.directive <;> exact Iff.rfl
  rw [← hforget b, ← hforget c, h]

/-! ## What can be spelled -/

theorem Expr.mem_reads_of_mem_distinct {p : Path} {paths : List Path} :
    ∀ {seen : List Path}, p ∈ distinct seen paths → p ∈ paths := by
  induction paths with
  | nil => exact fun hp => hp
  | cons first rest ih =>
    intro seen hp
    rw [distinct] at hp
    split at hp
    · exact List.mem_cons_of_mem _ (ih hp)
    · rcases List.mem_cons.1 hp with rfl | hp
      · exact List.mem_cons_self
      · exact List.mem_cons_of_mem _ (ih hp)

/-- The paths of an expression text can be spelled. -/
theorem CompiledExpression.grammatical (source : String) :
    ∀ p ∈ (compile source).paths, p.Grammatical := by
  intro p hp
  rw [paths, compile] at hp
  dsimp only at hp
  cases hparse : parseExpression (Text.trim source) with
  | error e =>
    rw [hparse] at hp
    cases hp
  | ok e =>
    rw [hparse] at hp
    exact Path.grammatical_of_parseExpression hparse p (Expr.mem_reads_of_mem_distinct hp)

/-- The targets of all reactions in a document can be spelled. -/
def HostTree.Grammatical (t : HostTree Reaction) : Prop :=
  ∀ y, ∀ l ∈ t.listenersOf y, l.action.Grammatical

theorem HostTree.Grammatical.of_kept (h : t.Grammatical)
    (hkept : ∀ y, t'.listenersOf y = [] ∨ t'.listenersOf y = t.listenersOf y) : t'.Grammatical := by
  intro y l hl
  rcases hkept y with hempty | hsame
  · rw [hempty] at hl
    cases hl
  · exact h y l (hsame ▸ hl)

/-! ## The invariant -/

/-- The invariant while bindings are made. -/
structure Page.Registering (t₀ : HostTree Reaction) (page : Page) (bs : List Binding) : Prop where
  tree : t₀.Tree
  kept : Kept t₀ bs page.host
  cache : page.cache.Sound
  fresh : ∀ b ∈ bs, b.filled? = none
  bare : ∀ b ∈ bs, b.rendered = []
  pristine : ∀ x, t₀.Live x → page.host.figure x = t₀.figure x
  asked : ∀ b ∈ bs, b.AskedFor page.config t₀
  /-- Only the nodes of bindings get listeners. -/
  heard : ∀ y, (∃ b ∈ bs, b.node = y) ∨ page.host.listenersOf y = [] ∨
    page.host.listenersOf y = t₀.listenersOf y
  grammatical : page.host.Grammatical

/-! ## Documents with more nodes or listeners -/

/-- A document in which the nodes of another have the places and figures they had. -/
structure HostTree.Resembles {α : Type} (t t' : HostTree α) : Prop where
  linked : t'.Linked
  live : ∀ x, t.Live x → t'.Live x
  figure : ∀ x, t.Live x → t'.figure x = t.figure x
  parent : ∀ x, t.Live x → t'.parent? x = t.parent? x
  children : ∀ x, t.Live x → t'.children x = t.children x

namespace HostTree

theorem Resembles.of_kept {α : Type} {t t' : HostTree α} (hl : t'.Linked)
    (hkept : ∀ x, t.Live x → t'.node? x = t.node? x) : t.Resembles t' := by
  exact ⟨hl, fun x hx => hx.of_node? (hkept x hx), fun x hx => figure_eq_of_node?_eq (hkept x hx),
    fun x hx => parent?_eq_of_node?_eq (hkept x hx),
    fun x hx => children_eq_of_node?_eq (hkept x hx)⟩

theorem Resembles.trans {α : Type} {t t' t'' : HostTree α} (h : t.Resembles t')
    (h' : t'.Resembles t'') : t.Resembles t'' :=
  ⟨h'.linked, fun x hx => h'.live x (h.live x hx),
    fun x hx => (h'.figure x (h.live x hx)).trans (h.figure x hx),
    fun x hx => (h'.parent x (h.live x hx)).trans (h.parent x hx),
    fun x hx => (h'.children x (h.live x hx)).trans (h.children x hx)⟩

theorem Draws.resembles {α : Type} {t t' : HostTree α} {shape : Branch Figure}
    (hdrawn : t.Draws x shape) (h : t.Resembles t') : t'.Draws x shape := by
  obtain ⟨b, hb, rfl, rfl⟩ := hdrawn
  refine ⟨b, hb.of_children (fun y hy => h.live y (hb.live hy)) (fun y hy => h.children y (hb.live hy)),
    rfl, b.map_congr fun y hy => h.figure y (hb.live hy)⟩

/-- A new placeholder. -/
theorem createPlaceholder_spec {α : Type} {t : HostTree α} (hl : t.Linked) (label : String) :
    ∃ placeholder t', t.createPlaceholder label = (placeholder, t') ∧ t.Resembles t' ∧
      ¬ t.Live placeholder ∧ t'.Live placeholder ∧ t'.parent? placeholder = none ∧
      t.KeepsListeners t' := by
  let node : Node α := { Node.blank .placeholder with data := label }
  have hnode := node?_allocate hl.free node
  have hfresh := node?_allocate_fresh hl.free node
  have hself : (t.allocate node).2.node? (t.allocate node).1 = some node := by
    rw [hnode, if_pos rfl]
  have hnot : ¬ t.Live (t.allocate node).1 := not_live_iff.2 hfresh
  refine ⟨(t.allocate node).1, (t.allocate node).2, rfl, ?_, hnot, ⟨node, hself⟩,
    parent?_of_node? hself, fun y n hn => ?_⟩
  · refine Resembles.of_kept (hl.allocate rfl) fun x hx => ?_
    rw [hnode, if_neg]
    rintro rfl
    exact hnot hx
  · rw [hnode] at hn
    split at hn
    · rw [← Option.some.inj hn]
      exact .inl rfl
    · exact .inr ⟨n, hn, rfl⟩

/-- A new listener. -/
theorem addListener_spec {α : Type} {t : HostTree α} (hl : t.Linked) {id : NodeId}
    (hid : t.Live id) (event : String) (action : α) :
    ∃ listener t', t.addListener id event action = .ok (listener, t') ∧ t.Resembles t' ∧
      (∀ x, x ≠ id → t'.node? x = t.node? x) ∧
      t'.listenersOf id = t.listenersOf id ++ [⟨listener, event, action⟩] := by
  obtain ⟨n, hn⟩ := hid
  let change : Node α → Node α := fun n =>
    { n with listeners := n.listeners ++ [⟨t.nextListener, event, action⟩] }
  let t' : HostTree α := { t.modify id change with nextListener := t.nextListener + 1 }
  have hkept : ∀ x, x ≠ id → t'.node? x = t.node? x := fun x hx => node?_modify_of_ne hx change
  have hself : t'.node? id = some (change n) := by
    show (t.modify id change).node? id = _
    rw [node?_modify_self, hn]
    rfl
  have hlinked : t'.Linked := by
    have hmodified : (t.modify id change).Linked := hl.modify id (fun _ => rfl) fun _ => rfl
    exact hmodified.number (t.nextListener + 1)
  refine ⟨t.nextListener, t', ?_, ⟨hlinked, fun x hx => ?_, fun x _ => ?_, fun x _ => ?_,
    fun x _ => ?_⟩, hkept, by rw [listenersOf, hself, listenersOf, hn]; rfl⟩
  · rw [addListener, update, get_of_node? hn]
    rfl
  · by_cases hxid : x = id
    · exact ⟨change n, by rw [hxid, hself]⟩
    · exact hx.of_node? (hkept x hxid)
  · by_cases hxid : x = id
    · rw [hxid, figure_of_node? hself, figure_of_node? hn]
      rfl
    · exact figure_eq_of_node?_eq (hkept x hxid)
  · by_cases hxid : x = id
    · rw [hxid, parent?_of_node? hself, parent?_of_node? hn]
    · exact parent?_eq_of_node?_eq (hkept x hxid)
  · by_cases hxid : x = id
    · rw [hxid, children_of_node? hself, children_of_node? hn]
    · exact children_eq_of_node?_eq (hkept x hxid)

/-- A new reaction whose target can be spelled. -/
theorem Grammatical.addListener (h : t.Grammatical) {id : NodeId} {listener : Nat} {event : String}
    {action : Reaction} (haction : action.Grammatical)
    (hkept : ∀ x, x ≠ id → t'.node? x = t.node? x)
    (hself : t'.listenersOf id = t.listenersOf id ++ [⟨listener, event, action⟩]) :
    t'.Grammatical := by
  intro y l hl
  by_cases hy : y = id
  · rw [hy, hself] at hl
    rcases List.mem_append.1 hl with hl | hl
    · exact h id l hl
    · rw [List.mem_singleton.1 hl]
      exact haction
  · rw [listenersOf, hkept y hy] at hl
    exact h y l hl

theorem listenersOf_of_keepsListeners {α : Type} {t t' : HostTree α} (h : t.KeepsListeners t')
    (y : NodeId) : t'.listenersOf y = [] ∨ t'.listenersOf y = t.listenersOf y := by
  cases hn : t'.node? y with
  | none =>
    rw [listenersOf, hn]
    exact .inl rfl
  | some n =>
    rw [listenersOf, hn]
    rcases h y n hn with hempty | ⟨m, hm, heq⟩
    · exact .inl hempty
    · rw [listenersOf, hm]
      exact .inr heq

end HostTree

/-- While no text is shown, the invariant does not depend on listeners and further nodes. -/
theorem Kept.resembles (h : Kept t₀ bs t) (hd : Declared config t₀ bs)
    (hfresh : ∀ b ∈ bs, b.filled? = none) (hr : t.Resembles t') : Kept t₀ bs t' := by
  have hlive : ∀ b ∈ bs, ∀ o ∈ b.aside, t.Live o := fun b hb o ho => by
    rcases (Binding.mem_of_mem_aside ho).2 with rfl | hown
    · exact h.stays _ (hd.standing hb)
    · exact (h.made b hb o hown).1
  constructor
  case linked => exact hr.linked
  case stays => exact fun x hx => hr.live x (h.stays x hx)
  case kind =>
    intro x hx
    rw [hr.figure x (h.stays x hx)]
    exact h.kind x hx
  case attributes =>
    intro x hx
    rw [hr.figure x (h.stays x hx)]
    exact h.attributes x hx
  case above =>
    intro x hx
    rw [hr.parent x (h.stays x hx)]
    exact h.above x hx
  case slots =>
    intro x hx hfree
    rw [hr.children x (h.stays x hx)]
    exact h.slots x hx hfree
  case texts =>
    intro b hb text htext
    rw [hfresh b hb] at htext
    cases htext
  case made => exact fun b hb o ho => ⟨hr.live o (h.made b hb o ho).1, (h.made b hb o ho).2⟩
  case ownAbove =>
    intro b hb o ho
    rw [hr.parent o (h.made b hb o ho).1]
    exact h.ownAbove b hb o ho
  case distinct => exact h.distinct
  case aside =>
    intro b hb o ho
    rw [hr.parent o (hlive b hb o ho)]
    exact h.aside b hb o ho
  case templates =>
    intro b hb clause template placeholder rendered hdir
    obtain ⟨shape, hshape, hdrawn⟩ := h.templates b hb clause template placeholder rendered hdir
    exact ⟨shape, hshape, hdrawn.resembles hr⟩

/-! ## A further binding -/

/-- A binding that keeps no more than its node in the slot leaves all slots as they are. -/
theorem occupants_append (hb : b.occupants? = none ∨ b.occupants? = some [b.node]) (x : NodeId) :
    occupants (bs ++ [b]) x = occupants bs x := by
  rw [occupants, occupants, List.findSome?_append]
  cases bs.findSome? fun c => if c.node = x then c.occupants? else none with
  | some os => rfl
  | none =>
    rw [Option.none_or, List.findSome?_cons]
    by_cases hnode : b.node = x
    · rw [if_pos hnode]
      rcases hb with hnone | hself
      · rw [hnone]
        rfl
      · rw [hself, hnode]
        rfl
    · rw [if_neg hnode]
      rfl

theorem occupants_append_of_ne (hx : x ≠ b.node) : occupants (bs ++ [b]) x = occupants bs x := by
  rw [occupants, occupants, List.findSome?_append, List.findSome?_singleton,
    if_neg fun heq => hx heq.symm, Option.or_none]

theorem filled_append (hb : b.filled? = none) : Filled (bs ++ [b]) x ↔ Filled bs x := by
  constructor
  · rintro ⟨c, hc, rfl, hne⟩
    rcases List.mem_append.1 hc with hc | hc
    · exact ⟨c, hc, rfl, hne⟩
    · rw [List.mem_singleton.1 hc] at hne
      exact absurd hb hne
  · rintro ⟨c, hc, rfl, hne⟩
    exact ⟨c, List.mem_append_left _ hc, rfl, hne⟩

/-- What a further binding has made is nothing of the others if it is new. -/
theorem nodup_own_append (hdistinct : (bs.flatMap Binding.own).Nodup) (hown : b.own.Nodup)
    (hnew : ∀ o ∈ b.own, ∀ c ∈ bs, o ∉ c.own) : ((bs ++ [b]).flatMap Binding.own).Nodup := by
  rw [List.flatMap_append, List.flatMap_singleton, List.nodup_append]
  refine ⟨hdistinct, hown, ?_⟩
  rintro o ho _ hob rfl
  obtain ⟨c, hc, hoc⟩ := List.mem_flatMap.1 ho
  exact hnew o hob c hc hoc

/-- A further binding that leaves its node in the slot. -/
theorem Kept.add (h : Kept t₀ bs t) (hfilled : b.filled? = none) (hkind : b.kind ≠ .repetition)
    (hoccupants : b.occupants? = none ∨ b.occupants? = some [b.node])
    (hmade : ∀ o ∈ b.own, (t.Live o ∧ ¬ Standing t₀ bs o) ∧ t.parent? o = none)
    (hdistinct : ((bs ++ [b]).flatMap Binding.own).Nodup)
    (haside : ∀ o ∈ b.aside, t.parent? o = none) : Kept t₀ (bs ++ [b]) t := by
  have hsame : ∀ x, Standing t₀ (bs ++ [b]) x ↔ Standing t₀ bs x := fun x =>
    ⟨fun hx => ⟨hx.live, fun y hy => hx.free y ((filled_append hfilled).2 hy)⟩,
      fun hx => ⟨hx.live, fun y hy => hx.free y ((filled_append hfilled).1 hy)⟩⟩
  have hall : ∀ {P : Binding → Prop}, (∀ c ∈ bs, P c) → P b → ∀ c ∈ bs ++ [b], P c := by
    intro P hbs hb c hc
    rcases List.mem_append.1 hc with hc | hc
    · exact hbs c hc
    · rw [List.mem_singleton.1 hc]
      exact hb
  constructor
  case linked => exact h.linked
  case stays => exact fun x hx => h.stays x ((hsame x).1 hx)
  case kind => exact fun x hx => h.kind x ((hsame x).1 hx)
  case attributes => exact fun x hx => h.attributes x ((hsame x).1 hx)
  case above => exact fun x hx => h.above x ((hsame x).1 hx)
  case slots =>
    intro x hx hfree
    rw [h.slots x ((hsame x).1 hx) fun hf => hfree ((filled_append hfilled).2 hf)]
    exact List.flatMap_congr fun y _ => (occupants_append hoccupants y).symm
  case texts =>
    refine hall h.texts fun text htext => ?_
    rw [hfilled] at htext
    cases htext
  case made =>
    exact hall (fun c hc o ho => ⟨(h.made c hc o ho).1, fun hx => (h.made c hc o ho).2 ((hsame o).1 hx)⟩)
      fun o ho => ⟨(hmade o ho).1.1, fun hx => (hmade o ho).1.2 ((hsame o).1 hx)⟩
  case ownAbove => exact hall h.ownAbove fun o ho => .inl (hmade o ho).2
  case distinct => exact hdistinct
  case aside => exact hall h.aside haside
  case templates =>
    refine hall h.templates fun clause template placeholder rendered hdir => absurd ?_ hkind
    rw [Binding.kind, hdir]
    rfl

end ReactiveTemplate
