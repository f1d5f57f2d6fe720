import ReactiveTemplate.Proofs.Document.Histories
import ReactiveTemplate.Proofs.Engine.Runs

/-!
# What a page displays

What the bindings of an engine show, told by the texts, styles, values and children of its
document and by the state, as a reader of the page sees it.

* `Engine.SlotHolds`: what stands among the siblings of a node.
* `Engine.Displays`: what a binding displays.
* `Page.Ready.displays`: a binding that shows the state displays it.
* `Engine.flush_brings_up_to_date`: after a flush every binding displays the state.
* `zonePage`: pages with one zone of elements that have no content.
* `Engine.pair_shows_old_text`: a container that is stored twice at once is displayed once only.
-/

namespace ReactiveTemplate

variable {t₀ : HostTree Reaction} {e : Engine} {b : Binding}

namespace Engine

/-- The slot of a node among those of the other children of its first parent holds some nodes. -/
def SlotHolds (t₀ : HostTree Reaction) (e : Engine) (x : NodeId) (nodes : List NodeId) : Prop :=
  ∃ p left right, t₀.children p = left ++ x :: right ∧
    e.page.host.children p = left.flatMap (occupants e.bindings) ++
      (nodes ++ right.flatMap (occupants e.bindings))

/-- A binding displays the state: the value of the expression that its attribute has as its text.
    Of an element and its placeholder one stands in the slot and the other has no parent. A list
    is displayed by one copy of the element for each item in order, behind a placeholder. -/
def Displays (t₀ : HostTree Reaction) (e : Engine) (b : Binding) : Prop :=
  let value := e.page.value (.compile b.source)
  match b.directive with
  | .text _ _ => e.page.host.text b.node = .ok (e.page.textOf value)
  | .visibility _ =>
    e.page.host.style b.node "display" = .ok (if value.isTruthy then "" else "none")
  | .presence _ placeholder _ =>
    let shown := if value.isTruthy then b.node else placeholder
    let aside := if value.isTruthy then placeholder else b.node
    e.SlotHolds t₀ b.node [shown] ∧ e.page.host.parent? aside = none
  | .repetition _ _ placeholder rendered =>
    ∃ clause, parseForClause (Text.trim b.source) = .ok clause ∧
      e.SlotHolds t₀ b.node (placeholder :: rendered) ∧
        ∀ id, resolvePath e.state.heap e.state.scope clause.list = .ok (.array id) →
          ∃ shape, t₀.Draws b.node shape ∧
            e.page.ShowsItems clause.item shape rendered (e.state.heap.items id)
  | .model _ _ => e.page.host.value b.node = .ok (e.page.textOf value)
  | .events _ => True

theorem Displays.text_of_bind (h : e.Displays t₀ b) (hkind : b.kind = .bind) :
    e.page.host.text b.node = .ok (e.page.textOf (e.page.value (.compile b.source))) := by
  rw [Displays] at h
  cases hdir : b.directive with
  | text expression shown =>
    rw [hdir] at h
    exact h
  | _ =>
    rw [Binding.kind, hdir] at hkind
    cases hkind

end Engine

namespace Page.Ready

variable {page : Page} {bs : List Binding}

/-- The slot of a binding that takes care of it. -/
theorem slotHolds (hr : e.page.Ready t₀ e.bindings) (hb : b ∈ e.bindings) {os : List NodeId}
    (hos : b.occupants? = some os) : e.SlotHolds t₀ b.node os := by
  have hstanding := hr.declared.standing hb
  obtain ⟨p, hp⟩ := hr.declared.hooked b hb (Binding.kind_of_occupants? hos)
  obtain ⟨left, right, hsplit, -, -, hchildren⟩ := hr.kept.slot hr.tree hstanding hp
  rw [hr.declared.occupants_of_mem hb hos] at hchildren
  exact ⟨p, left, right, hsplit, hchildren⟩

/-- A binding that shows the state displays it. -/
theorem displays (hr : e.page.Ready t₀ e.bindings) (hb : b ∈ e.bindings)
    (hasked : b.AskedFor e.page.config t₀) (hshows : e.page.Shows t₀ b) : e.Displays t₀ b := by
  have hsource := hr.source? hb
  obtain ⟨n, hn⟩ := HostTree.live_of_source? hsource
  rw [HostTree.figure_of_node? hn] at hsource
  unfold Page.Shows at hshows
  unfold Binding.AskedFor at hasked
  unfold Engine.Displays
  cases hdir : b.directive with
  | text expression shown =>
    rw [hdir] at hshows hasked
    obtain ⟨rfl, -⟩ := hasked
    have htext := hr.kept.texts b hb _ (by rw [Binding.filled?, hdir]; exact hshows)
    exact htext.text_eq hn (Figure.isElement_of_source? hsource)
  | visibility expression =>
    rw [hdir] at hshows hasked
    obtain ⟨rfl, -⟩ := hasked
    dsimp only at hshows ⊢
    rw [HostTree.figure_of_node? hn] at hshows
    have hstyle : n.styles.get? "display" = _ := hshows
    rw [HostTree.style, HostTree.get_of_node? hn]
    show Except.ok ((n.styles.get? "display").getD "") = _
    rw [hstyle]
    split <;> rfl
  | presence expression placeholder present =>
    rw [hdir] at hshows hasked
    obtain ⟨rfl, -⟩ := hasked
    dsimp only at hshows ⊢
    rw [← hshows]
    refine ⟨hr.slotHolds hb (by rw [Binding.occupants?, hdir]), hr.kept.aside b hb _ ?_⟩
    rw [Binding.aside, hdir]
    exact List.mem_singleton_self _
  | repetition clause template placeholder rendered =>
    rw [hdir] at hshows hasked
    exact ⟨clause, hasked.1, hr.slotHolds hb (by rw [Binding.occupants?, hdir]), hshows⟩
  | model expression listener =>
    rw [hdir] at hshows hasked
    obtain ⟨rfl, -⟩ := hasked
    dsimp only at hshows ⊢
    rw [HostTree.figure_of_node? hn] at hshows
    rw [HostTree.value, HostTree.get_of_node? hn]
    exact congrArg Except.ok hshows
  | events listeners => trivial

end Page.Ready

/-! ## Pages with one zone -/

/-- Adds an element to the first zone of a page: its tag, and an attribute with its text. -/
def appendLeaf (page : HostTree Reaction) (leaf : String × String × String) : HostTree Reaction :=
  (page.appendElement ⟨1, 0⟩ leaf.1 [leaf.2]).2

/-- A page with a zone of elements that have no content. -/
def zonePage (leaves : List (String × String × String)) : HostTree Reaction :=
  leaves.foldl appendLeaf (HostTree.empty.appendElement HostTree.root "div" [("vx-zone", "")]).2

theorem live_appendLeaf {page : HostTree Reaction} (h : page.Sound) (hzone : page.Live ⟨1, 0⟩)
    (leaf : String × String × String) : (appendLeaf page leaf).Live ⟨1, 0⟩ := by
  let node : Node Reaction :=
    { Node.blank (.element leaf.1) with attributes := .ofList [leaf.2] }
  obtain ⟨id, page', happend, ha⟩ :=
    HostTree.append_spec h.tree.linked.free hzone (show node.children = [] from rfl)
  have hpage : appendLeaf page leaf = page' := congrArg Prod.snd happend
  rw [hpage]
  exact hzone.of_content (ha.content _ fun heq => ha.fresh (heq ▸ hzone))

theorem sound_zonePage (leaves : List (String × String × String)) : (zonePage leaves).Sound := by
  suffices h : ∀ page : HostTree Reaction, page.Sound → page.Live ⟨1, 0⟩ →
      (leaves.foldl appendLeaf page).Sound from
    h _ (HostTree.sound_empty.append ⟨_, rfl⟩ rfl) ⟨_, rfl⟩
  induction leaves with
  | nil => exact fun _ h _ => h
  | cons leaf leaves ih =>
    exact fun page h hzone => ih _ (h.append hzone rfl) (live_appendLeaf h hzone leaf)

theorem tree_zonePage (leaves : List (String × String × String)) : (zonePage leaves).Tree :=
  (sound_zonePage leaves).tree

/-- A document whose nodes have no listeners. -/
theorem HostTree.listenersOf_eq_nil (hdeaf : ∀ x ∈ t₀.ids, (t₀.listenersOf x).isEmpty = true)
    (y : NodeId) : t₀.listenersOf y = [] := by
  by_cases hy : t₀.Live y
  · exact List.isEmpty_iff.1 (hdeaf y (HostTree.mem_ids_iff.2 hy))
  · rw [HostTree.listenersOf, HostTree.not_live_iff.1 hy]
    rfl

theorem HostTree.grammatical_of_deaf
    (hdeaf : ∀ x ∈ t₀.ids, (t₀.listenersOf x).isEmpty = true) : t₀.Grammatical := by
  intro y l hl
  rw [HostTree.listenersOf_eq_nil hdeaf y] at hl
  cases hl

/-- Documents with one zone in which elements that show a text have no content. -/
theorem HostTree.Apart.of_leaves {config : Config} {z : NodeId}
    (hzones : (t₀.queryAll config.zoneSelector).toOption = some [z])
    (hleaves : ∀ x ∈ t₀.ids, (t₀.figure x).source? (config.attributeName .bind) ≠ none →
      t₀.children x = []) : t₀.Apart config := by
  refine ⟨fun zones hfound x hx y hy _ => ?_, fun x y kind hx _ hbelow => ?_⟩
  · rw [hfound] at hzones
    obtain rfl := Option.some.inj hzones
    rw [List.mem_singleton.1 hx, List.mem_singleton.1 hy]
  · obtain ⟨source, hsource⟩ := Option.ne_none_iff_exists'.1 hx
    have hmem := HostTree.mem_ids_iff.2 (HostTree.live_of_source? hsource)
    by_contra hne
    exact HostTree.not_below_of_children_nil (hleaves x hmem hx) hne hbelow

namespace Engine

/-- After every flush of a run whose writes leave each container on one path only, each binding
    displays the state. -/
theorem flush_brings_up_to_date {host : HostTree Reaction} {initial : Datum} {config : Config}
    {moves : List Move} (ht : host.Tree) (hapart : host.Apart config)
    (hgrammatical : host.Grammatical) (hknown : initial.Known .empty)
    (hmoves : ((create host initial config).mount .zones).RunTidy moves) :
    let e := (((create host initial config).mount .zones).run moves).flush.2
    ∀ b ∈ e.bindings,
      (host.figure b.node).source? (e.page.config.attributeName b.kind) = some b.source ∧
        e.Displays host b := by
  intro e b hb
  have hflushed := ((tracks_start ht hapart hgrammatical hknown).run hmoves).flush
  have hready := hflushed.tracks.ready
  exact ⟨hready.declared.source b hb,
    hready.displays hb (hflushed.tracks.asked b hb) (hflushed.shows b hb)⟩

/-- A page with a text, an element that is there while the text is not empty, and an input. -/
def greetingPage : HostTree Reaction :=
  zonePage [("span", "vx-bind", "name"), ("p", "vx-if", "name"), ("input", "vx-model", "name")]

/-- The engine of the greeting. -/
def greetingEngine : Engine :=
  (create greetingPage (.object [("name", .text "")]) .standard).mount .zones

/-- Writes a name. -/
def greetingMoves : List Move := [.write [] (.setField "name" (.text "Ada"))]

theorem greetingMoves_tidy : greetingEngine.RunTidy greetingMoves := by
  have hunshared : (greetingEngine.run greetingMoves).state.Unshared :=
    Heap.Unshared.of_flat (c := .object (greetingEngine.run greetingMoves).state.store.rootObject)
      (by decide +kernel)
  refine ⟨⟨fun value hvalue => ?_, hunshared, fun index value hset => by cases hset⟩, trivial⟩
  rw [List.mem_singleton.1 hvalue]
  exact Tracked.known_of_plain rfl

theorem greeting_flush_brings_up_to_date :
    let e := (greetingEngine.run greetingMoves).flush.2
    greetingPage.Tree ∧ greetingPage.Apart .standard ∧ greetingPage.Grammatical ∧
      (Datum.object [("name", .text "")]).Known .empty ∧ greetingEngine.RunTidy greetingMoves ∧
      ∀ b ∈ e.bindings,
        (greetingPage.figure b.node).source? (e.page.config.attributeName b.kind) = some b.source ∧
          e.Displays greetingPage b := by
  have ht : greetingPage.Tree := tree_zonePage _
  have hapart : greetingPage.Apart .standard :=
    HostTree.Apart.of_leaves (z := ⟨1, 0⟩) (by decide +kernel) (by decide +kernel)
  have hgrammatical : greetingPage.Grammatical :=
    HostTree.grammatical_of_deaf (by decide +kernel)
  have hknown : (Datum.object [("name", .text "")]).Known .empty := by
    simp [Datum.Known, Datum.FieldsKnown]
  have htidy := greetingMoves_tidy
  rw [greetingEngine] at htidy ⊢
  exact ⟨ht, hapart, hgrammatical, hknown, htidy,
    flush_brings_up_to_date ht hapart hgrammatical hknown htidy⟩

/-! ## A container that is stored twice at once -/

/-- The values that a step of the host stores. -/
def stored : Move → List Value
  | .write _ write => write.values
  | .setPath _ _ value => [value]
  | _ => []

/-- No step of the host stores a container that is a part of the state already. -/
def RunFresh : Engine → List Move → Prop
  | _, [] => True
  | e, step :: rest =>
    (∀ value ∈ stored step, ∀ keys keys' c, e.state.heap.containerAlong? value keys = some c →
      e.state.heap.containerAlong? (.object e.state.store.rootObject) keys' ≠ some c) ∧
      RunFresh (e.move step) rest

/-- A page with the two parts of a pair. -/
def pairPage : HostTree Reaction :=
  zonePage [("span", "vx-bind", "pair.left.x"), ("span", "vx-bind", "pair.right.x")]

/-- An object is taken out of the state, and stored again as both parts of a pair. Then one of the
    parts is changed. -/
def pairMoves : List Move :=
  [.write [.field "items"] (.edit .pop),
    .place (.object [("left", .held (.object ⟨0⟩)), ("right", .held (.object ⟨0⟩))]),
    .write [] (.setField "pair" (.object ⟨2⟩)), .flush,
    .write [.field "pair", .field "left"] (.setField "x" (.text "new"))]

/-- The engine of the pair. -/
def pairEngine : Engine :=
  let fields : List (String × Datum) :=
    [("items", .array [.object [("x", .text "old")]]), ("pair", .text "none")]
  (create pairPage (.object fields) .standard).mount .zones

theorem pairMoves_fresh : pairEngine.RunFresh pairMoves := by
  refine ⟨fun value hvalue => (by cases hvalue), fun value hvalue => (by cases hvalue),
    fun value hvalue keys keys' c hc hc' => ?_, fun value hvalue => (by cases hvalue),
    fun value hvalue keys keys' c hc => ?_, trivial⟩
  · rw [List.mem_singleton.1 hvalue] at hc
    -- Below the pair are others than below the root.
    have hpair : c ∈ [Container.object ⟨2⟩, .object ⟨0⟩] :=
      Heap.mem_of_containerAlong? (by decide +kernel) (by decide +kernel) hc
    have hroot : c ∈ [Container.object ⟨1⟩, .array ⟨0⟩] :=
      Heap.mem_of_containerAlong? (by decide +kernel) (by decide +kernel) hc'
    revert hpair hroot
    simp only [List.mem_cons, List.not_mem_nil, or_false]
    rintro (rfl | rfl) <;> simp
  · rw [List.mem_singleton.1 hvalue, Heap.containerAlong?_of_container?_eq_none rfl] at hc
    cases hc

/-- The binding of the part that was not written is skipped by the flush. -/
theorem pair_shows_old_text :
    pairPage.Tree ∧ pairPage.Apart .standard ∧ pairEngine.RunFresh pairMoves ∧
      ∃ b ∈ (pairEngine.run pairMoves).flush.2.bindings,
        ¬ (pairEngine.run pairMoves).flush.2.Displays pairPage b := by
  refine ⟨tree_zonePage _, HostTree.Apart.of_leaves (z := ⟨1, 0⟩) (by decide +kernel)
    (by decide +kernel), pairMoves_fresh, ?_⟩
  have hbindings : ((pairEngine.run pairMoves).flush.2.bindings.map fun b =>
      (b.node, b.kind, b.source)) =
        [(⟨2, 0⟩, .bind, "pair.left.x"), (⟨3, 0⟩, .bind, "pair.right.x")] := by decide +kernel
  have hright : ((⟨3, 0⟩, .bind, "pair.right.x") : NodeId × DirectiveKind × String) ∈
      (pairEngine.run pairMoves).flush.2.bindings.map fun b => (b.node, b.kind, b.source) := by
    rw [hbindings]
    exact List.mem_cons_of_mem _ (List.mem_singleton_self _)
  obtain ⟨b, hb, hright⟩ := List.mem_map.1 hright
  obtain ⟨hnode, hkind, hsource⟩ : b.node = ⟨3, 0⟩ ∧ b.kind = .bind ∧ b.source = "pair.right.x" := by
    simpa using hright
  refine ⟨b, hb, fun hdisplays => ?_⟩
  have htext := hdisplays.text_of_bind hkind
  rw [hnode, hsource] at htext
  have hshown : ((pairEngine.run pairMoves).flush.2.page.host.text ⟨3, 0⟩).toOption = some "old" := by
    decide +kernel
  have hvalue : (pairEngine.run pairMoves).flush.2.page.textOf
      ((pairEngine.run pairMoves).flush.2.page.value (.compile "pair.right.x")) = "new" := by
    decide +kernel
  rw [htext, hvalue] at hshown
  exact absurd hshown (by decide)

end Engine

end ReactiveTemplate
