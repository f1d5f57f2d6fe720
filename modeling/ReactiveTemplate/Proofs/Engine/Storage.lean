import ReactiveTemplate.Proofs.Engine.Ledger
import ReactiveTemplate.Proofs.Engine.Sweeps
import ReactiveTemplate.Proofs.Engine.Unmounting

/-!
# The storage of a document

However often lists are rendered again, a document has only as many nodes more as its copies and
texts have, as long as the templates are frugal: an element in them that shows a text contains
nothing but texts.

* `Stocked`: the invariant of runs; `Engine.upheld_stocked`: updates keep it.
* `Engine.Flushes`: what is known of the bindings that the flushes of a run update.
* `Engine.move_balanced`, `Engine.run_balanced`: the steps of a run keep the books.
* `Engine.rerender_liveCount`: rendering a list again leaves no nodes over.
-/

namespace ReactiveTemplate

variable {t₀ t t' t'' : HostTree Reaction} {shows : NodeId → Prop} {bs bs' bs'' front back : List Binding}
  {b : Binding} {x o : NodeId}

/-! ## The invariant -/

/-- What bindings have done to a document, and that templates are bare where their elements are. -/
structure Stocked (t₀ : HostTree Reaction) (shows : NodeId → Prop) (bs : List Binding)
    (t : HostTree Reaction) : Prop where
  held : Held t₀ shows bs t
  templates : ∀ b ∈ bs, ∀ o, b.template? = some o → ∀ name, t₀.Bare name b.node → t.Bare name o

theorem Enrolled.stocked (h : Enrolled t₀ bs t) (ht : t₀.Tree) (hsafe : ∀ b ∈ bs, t₀.Safe shows b.node)
    (hshown : ∀ b ∈ bs, b.kind = .bind → shows b.node) : Stocked t₀ shows bs t where
  held := ⟨sheltered_eq_self hsafe ▸ h.restorable.weaken ht, hshown, h.elements⟩
  templates := h.templates

/-- The template of a binding is part of what it was declared as. -/
theorem Binding.template?_forget (b : Binding) : b.forget.template? = b.template? := by
  obtain ⟨id, node, source, directive, reads⟩ := b
  cases directive <;> rfl

theorem Balanced.refl (bs : List Binding) (t : HostTree Reaction) : Balanced bs bs t t := rfl

theorem Balanced.trans (h : Balanced bs bs' t t') (h' : Balanced bs' bs'' t' t'') :
    Balanced bs bs'' t t'' := by
  rw [Balanced] at h h' ⊢
  omega

/-! ## Small documents -/

namespace HostTree

theorem bare_of_childless {name : String}
    (h : ∀ y ∈ t.ids, (t.attribute? y name).isSome → t.children y = []) (x : NodeId) :
    t.Bare name x := by
  intro y _ hattribute c hc
  rw [h y (mem_ids_iff.2 (live_of_mem_children hc)) hattribute] at hc
  cases hc

/-- A subtree of three nodes, each in the one before. -/
theorem Holds.chain {x y z : NodeId}
    (h : t.children x = [y] ∧ t.children y = [z] ∧ t.children z = [] ∧
      ∀ w ∈ [x, y, z], w ∈ t.ids) : t.Holds (.node x [.node y [.node z []]]) := by
  obtain ⟨hx, hy, hz, hids⟩ := h
  refine .node (mem_ids_iff.1 (hids x (by simp))) hx (List.forall_mem_singleton.2 ?_)
  refine .node (mem_ids_iff.1 (hids y (by simp))) hy (List.forall_mem_singleton.2 ?_)
  exact .node (mem_ids_iff.1 (hids z (by simp))) hz (List.forall_mem_nil _)

end HostTree

namespace Engine

variable {e : Engine}

/-- A binding whose template, if it has one, leaves nothing over when it is rendered: the elements
    in it that show a text contain texts only. -/
def Frugal (t₀ : HostTree Reaction) (e : Engine) (b : Binding) : Prop :=
  b.kind = .repetition → t₀.Bare (e.page.attributeName .bind) b.node

theorem kind_of_template? (h : b.template? = some o) : b.kind = .repetition := by
  obtain ⟨id, node, source, directive, reads⟩ := b
  cases directive <;> first | rfl | cases h

/-! ## Updates -/

/-- Error handlers act on the state alone. -/
theorem update_config (e : Engine) (b : Binding) :
    (e.update b).2.2.page.config = (e.page.update b).2.2.config := by
  have hfold : ∀ (failure : BindingFailure) (handlers : List ErrorHandler) (e : Engine),
      (handlers.foldl (callHandler failure) e).page.config = e.page.config := by
    intro failure handlers
    induction handlers with
    | nil => exact fun _ => rfl
    | cons h handlers ih => exact fun e => ih (callHandler failure e h)
  rw [update]
  rcases e.page.update b with ⟨_ | _, b', page'⟩
  · exact hfold _ _ _
  · rfl

/-- An update of a binding keeps the invariant. -/
theorem upheld_stocked (ht : t₀.Tree) : Upheld fun _ bs t => Stocked t₀ shows bs t := by
  intro _ front b back page h
  have hb : b ∈ front ++ b :: back := mem_insert.2 (.inl rfl)
  obtain ⟨-, htemplates, -⟩ := Page.update_books ht h.held
  have hrestorable := (Page.update_restorable ht h.held.restorable (h.held.shown b hb)).1
  have hforget := page.update_forget b
  have hkind : (page.update b).2.1.kind = b.kind := by
    rw [← Binding.kind_forget, hforget, Binding.kind_forget]
  have hnode : (page.update b).2.1.node = b.node := rfl
  refine ⟨h.held.exchange hrestorable hnode hkind, fun c hc o ho name hbare => ?_⟩
  have hbefore : ∃ c' ∈ front ++ b :: back, c'.template? = some o ∧ c'.node = c.node := by
    rcases mem_insert.1 hc with rfl | hc
    · refine ⟨b, hb, ?_, hnode.symm⟩
      rw [← Binding.template?_forget, ← hforget, Binding.template?_forget]
      exact ho
    · exact ⟨c, mem_insert.2 (.inr hc), ho, rfl⟩
  obtain ⟨c', hc', ho', hnode'⟩ := hbefore
  exact (h.templates c' hc' o ho' name (hnode'.symm ▸ hbare)).fixed (htemplates c' hc' o ho')

/-- It keeps the books if the template of the binding is frugal. -/
theorem update_balanced (ht : t₀.Tree) (h : Stocked t₀ shows (front ++ b :: back) e.page.host) :
    (e.update b).2.2.page.config = e.page.config ∧
      (e.Frugal t₀ b → Balanced (front ++ b :: back) (front ++ (e.update b).2.1 :: back) e.page.host
        (e.update b).2.2.page.host) := by
  have hb : b ∈ front ++ b :: back := mem_insert.2 (.inl rfl)
  obtain ⟨hbinding, hhost, -⟩ := e.update_eq b
  rw [hbinding, hhost, update_config]
  obtain ⟨hconfig, -, hbalanced⟩ := Page.update_books ht h.held
  exact ⟨hconfig, fun hfrugal => hbalanced fun o ho =>
    h.templates b hb o ho _ (hfrugal (kind_of_template? ho))⟩

/-- A sweep of a flush keeps the books if the templates of the bindings that it updates are frugal. -/
theorem flushEach_balanced (ht : t₀.Tree) (changed : List String) (bs : List Binding) :
    ∀ {front : List Binding} (r : FlushReport) {e : Engine},
      Stocked t₀ shows (front ++ bs) e.page.host →
      (∀ b ∈ bs, b.isAffectedBy changed = true → e.Frugal t₀ b) →
        Balanced (front ++ bs) (front ++ (flushEach changed bs r e).1) e.page.host
          (flushEach changed bs r e).2.2.page.host := by
  induction bs with
  | nil => exact fun _ _ _ _ => .refl _ _
  | cons b bs ih =>
    intro front r e h hfrugal
    have hrest : ∀ c ∈ bs, c.isAffectedBy changed = true → e.Frugal t₀ c := fun c hc =>
      hfrugal c (List.mem_cons_of_mem _ hc)
    rw [flushEach]
    split
    · next haffected =>
      obtain ⟨hconfig, hbalanced⟩ := update_balanced ht h
      have hupdate := (upheld_stocked ht).update (n := 0) h
      have hothers := fun report : FlushReport => ih report hupdate fun c hc haffected' hkind => by
        rw [Page.attributeName, hconfig]
        exact hrest c hc haffected' hkind
      simp only [List.append_assoc] at hothers
      exact (hbalanced (hfrugal b List.mem_cons_self haffected)).trans (hothers _)
    · rw [List.append_cons] at h
      have hothers := fun report : FlushReport => ih report h hrest
      simp only [List.append_assoc] at hothers
      exact hothers _

/-! ## Runs -/

/-- Something is known of each binding that the flushes of a run update. -/
def Flushes (known : Engine → Binding → Prop) : Engine → List Move → Prop
  | _, [] => True
  | e, step :: rest =>
    (step = .flush → ∀ b ∈ e.bindings, b.isAffectedBy e.scheduler.pending = true → known e b) ∧
      Flushes known (e.move step) rest

/-- Every step of a run keeps the books if it updates frugal lists only. -/
theorem move_balanced (ht : t₀.Tree) (step : Move) (h : Stocked t₀ shows e.bindings e.page.host)
    (hfrugal : step = .flush → ∀ b ∈ e.bindings, b.isAffectedBy e.scheduler.pending = true →
      e.Frugal t₀ b) :
    Balanced e.bindings (e.move step).bindings e.page.host (e.move step).page.host := by
  cases step with
  | read | place | write | setPath => exact .refl _ _
  | setState update =>
    rw [move, setState]
    dsimp only
    split <;> exact .refl _ _
  | dispatch node event =>
    rw [move_dispatch]
    exact .refl _ _
  | flush =>
    rw [move, flush]
    dsimp only
    split
    · exact .refl _ _
    · have hall : ∀ state, Stocked t₀ shows ([] ++ e.bindings) (e.withState state).page.host :=
        fun _ => h
      exact flushEach_balanced ht e.scheduler.takePending.1 e.bindings _ (hall _) (hfrugal rfl)

theorem run_balanced (ht : t₀.Tree) (moves : List Move) :
    ∀ {e : Engine}, Stocked t₀ shows e.bindings e.page.host → e.Flushes (Frugal t₀) moves →
      Balanced e.bindings (e.run moves).bindings e.page.host (e.run moves).page.host := by
  induction moves with
  | nil => exact fun _ _ => .refl _ _
  | cons step moves ih =>
    intro e h hflushes
    have hstocked := (upheld_stocked ht).move (n := 0) step h
    exact (move_balanced ht step h hflushes.1).trans (ih hstocked hflushes.2)

/-! ## Rendering a list again -/

/-- Lists show copies of the same shapes as before, and elements as many texts. -/
structure Repeats (e e' : Engine) : Prop where
  copies : List.Forall₂
    (fun b b' => ∃ shapes, e.page.Lists b shapes ∧ e'.page.Lists b' shapes) e.bindings e'.bindings
  texts : ∀ x, e.ShowsText x → e'.page.host.textWeight x = e.page.host.textWeight x

/-- Copies have the nodes of their shapes. -/
theorem copyWeight_of_lists {page : Page} (hl : page.host.Linked) {shapes : List (Branch Figure)}
    (h : page.Lists b shapes) :
    page.host.copyWeight b = (shapes.map fun shape => shape.labels.length).sum := by
  have hweights : ∀ {copies : List NodeId} {shapes : List (Branch Figure)},
      List.Forall₂ page.host.Draws copies shapes →
      copies.map page.host.weight = shapes.map fun shape => shape.labels.length := by
    intro copies shapes hdrawn
    induction hdrawn with
    | nil => rfl
    | cons hdraws _ ih => rw [List.map_cons, List.map_cons, ih, hdraws.weight_eq hl]
  rw [HostTree.copyWeight, hweights h]

/-- What bindings are declared as does not change in a run. -/
theorem flushEach_forget (changed : List String) (bs : List Binding) :
    ∀ (r : FlushReport) (e : Engine),
      (flushEach changed bs r e).1.map Binding.forget = bs.map Binding.forget := by
  induction bs with
  | nil => exact fun _ _ => rfl
  | cons b bs ih =>
    intro r e
    rw [flushEach]
    split
    · rw [List.map_cons, List.map_cons, ih, (e.update_eq b).1, e.page.update_forget]
    · rw [List.map_cons, List.map_cons, ih]

theorem move_forget (e : Engine) (step : Move) :
    (e.move step).bindings.map Binding.forget = e.bindings.map Binding.forget := by
  cases step with
  | read | place | write | setPath => rfl
  | setState update =>
    rw [move, setState]
    dsimp only
    split <;> rfl
  | dispatch node event =>
    rw [move_dispatch]
    rfl
  | flush =>
    rw [move, flush]
    dsimp only
    split
    · rfl
    · exact flushEach_forget _ _ _ _

theorem run_forget (moves : List Move) :
    ∀ e : Engine, (e.run moves).bindings.map Binding.forget = e.bindings.map Binding.forget := by
  induction moves with
  | nil => exact fun _ => rfl
  | cons step moves ih => exact fun e => (ih (e.move step)).trans (e.move_forget step)

theorem shownNodes_of_forget (h : bs'.map Binding.forget = bs.map Binding.forget) :
    shownNodes bs' = shownNodes bs := by
  have hpairs : ∀ bs : List Binding, ((bs.filter fun b => b.kind = .bind).map Binding.node) =
      (((bs.map fun b => (b.node, b.kind)).filter fun p => p.2 = .bind).map Prod.fst) := by
    intro bs
    rw [List.filter_map, List.map_map]
    rfl
  rw [shownNodes, shownNodes, hpairs, hpairs, map_pair_of_forget h]

/-- Where lists show copies of the same shapes, and elements as many texts, as many nodes are in
    them. -/
theorem Repeats.turnover {e e' : Engine} (h : e.Repeats e') (hl : e.page.host.Linked)
    (hl' : e'.page.host.Linked) (hshown : shownNodes e'.bindings = shownNodes e.bindings) :
    e'.page.host.turnover e'.bindings = e.page.host.turnover e.bindings := by
  have hcopies : ∀ {bs bs' : List Binding}, List.Forall₂
      (fun b b' => ∃ shapes, e.page.Lists b shapes ∧ e'.page.Lists b' shapes) bs bs' →
      bs'.map e'.page.host.copyWeight = bs.map e.page.host.copyWeight := by
    intro bs bs' hall
    induction hall with
    | nil => rfl
    | cons hb _ ih =>
      obtain ⟨shapes, hlists, hlists'⟩ := hb
      rw [List.map_cons, List.map_cons, ih, copyWeight_of_lists hl hlists,
        copyWeight_of_lists hl' hlists']
  have htexts : (shownNodes e.bindings).map e'.page.host.textWeight =
      (shownNodes e.bindings).map e.page.host.textWeight :=
    List.map_congr_left fun x hx => h.texts x (mem_shownNodes.1 hx)
  rw [HostTree.turnover, hcopies h.copies, hshown, htexts, HostTree.turnover]

/-- A run after mounting changes the number of nodes by what copies and texts have more or less, as
    long as it renders lists with frugal templates only. So rendering lists again leaves as many
    nodes as there were, where the copies have the same shapes as before. -/
theorem rerender_liveCount {target : MountTarget} (h : e.page.host.Sound) (hfresh : e.bindings = [])
    (hsafe : ∀ b ∈ (e.mount target).bindings,
      e.page.host.Safe (e.mount target).ShowsText b.node) (before after : List Move)
    (hfrugal : ((e.mount target).run before).Flushes (Frugal e.page.host) after) :
    let e₁ := (e.mount target).run before
    let e₂ := e₁.run after
    e₂.page.host.liveCount + e₁.page.host.turnover e₁.bindings =
        e₁.page.host.liveCount + e₂.page.host.turnover e₂.bindings ∧
      (e₁.Repeats e₂ → e₂.page.host.liveCount = e₁.page.host.liveCount) := by
  intro e₁ e₂
  have hmounted : Stocked e.page.host (e.mount target).ShowsText (e.mount target).bindings
      (e.mount target).page.host := by
    obtain ⟨made, e₀, hmade, hbindings, hhost, -⟩ := mount_enrols h hfresh target
    obtain ⟨hforget, -⟩ := updateAll_forget made e₀
    have hshown : ∀ b ∈ (e.mount target).bindings, b.kind = .bind →
        (e.mount target).ShowsText b.node := fun b hb hkind => ⟨b, hb, hkind, rfl⟩
    generalize (e.mount target).ShowsText = shows at hsafe hshown ⊢
    rw [hbindings] at hsafe hshown ⊢
    rw [hhost]
    have hall : Stocked e.page.host shows ([] ++ made) e₀.page.host := by
      refine hmade.stocked h.tree ?_ ?_
      · exact forall_of_forget (Q := fun node _ => e.page.host.Safe shows node) hforget hsafe
      · exact forall_of_forget (Q := fun node kind => kind = .bind → shows node) hforget hshown
    exact (upheld_stocked h.tree).updateAll made (n := 0) hall
  have hstocked₁ : Stocked e.page.host (e.mount target).ShowsText e₁.bindings e₁.page.host :=
    (upheld_stocked h.tree).run before (n := 0) hmounted
  have hstocked₂ : Stocked e.page.host (e.mount target).ShowsText e₂.bindings e₂.page.host :=
    (upheld_stocked h.tree).run after (n := 0) hstocked₁
  have hbalanced : Balanced e₁.bindings e₂.bindings e₁.page.host e₂.page.host :=
    run_balanced h.tree after hstocked₁ hfrugal
  refine ⟨hbalanced, fun hrepeats => ?_⟩
  have hturnover := hrepeats.turnover hstocked₁.held.sound.tree.linked
    hstocked₂.held.sound.tree.linked (shownNodes_of_forget (e₁.run_forget after))
  rw [Balanced, hturnover] at hbalanced
  omega

/-- A page with a list of names and a text. -/
def shelfPage : HostTree Reaction :=
  let zone := (HostTree.empty.appendElement HostTree.root "div" [("vx-zone", "")]).2
  let list := (zone.appendElement ⟨1, 0⟩ "li" [("vx-for", "name in names")]).2
  let inner := (list.appendElement ⟨2, 0⟩ "b" [("vx-bind", "name")]).2
  (inner.appendElement ⟨1, 0⟩ "p" [("vx-bind", "title")]).2

/-- The engine of that page, with two names. -/
def shelfEngine : Engine :=
  create shelfPage (.object [("names", .array [.text "Ann", .text "Bob"]), ("title", .text "Names")])
    .standard

/-- Another list of the same names. -/
def shelfUpdate : Move := .setState (.object [("names", .array [.text "Ann", .text "Bob"])])

/-- The list is rendered again. -/
def shelfMoves : List Move := [shelfUpdate, .flush]

/-- The copies of the names before and after have the same shapes. -/
theorem repeats_shelfPage :
    (shelfEngine.mount .zones).Repeats ((shelfEngine.mount .zones).run shelfMoves) := by
  have hrendered : (shelfEngine.mount .zones).bindings.map Binding.rendered =
      [[], [⟨9, 0⟩, ⟨12, 0⟩]] := by decide +kernel
  have hrendered' : ((shelfEngine.mount .zones).run shelfMoves).bindings.map Binding.rendered =
      [[], [⟨14, 1⟩, ⟨11, 1⟩]] := by decide +kernel
  have hann : (shelfEngine.mount .zones).page.host.Holds
      (.node ⟨9, 0⟩ [.node ⟨10, 0⟩ [.node ⟨11, 0⟩ []]]) := .chain (by decide +kernel)
  have hbob : (shelfEngine.mount .zones).page.host.Holds
      (.node ⟨12, 0⟩ [.node ⟨13, 0⟩ [.node ⟨14, 0⟩ []]]) := .chain (by decide +kernel)
  have hann' : ((shelfEngine.mount .zones).run shelfMoves).page.host.Holds
      (.node ⟨14, 1⟩ [.node ⟨13, 1⟩ [.node ⟨12, 1⟩ []]]) := .chain (by decide +kernel)
  have hbob' : ((shelfEngine.mount .zones).run shelfMoves).page.host.Holds
      (.node ⟨11, 1⟩ [.node ⟨10, 1⟩ [.node ⟨9, 1⟩ []]]) := .chain (by decide +kernel)
  have hfigures : [⟨14, 1⟩, ⟨13, 1⟩, ⟨12, 1⟩, ⟨11, 1⟩, ⟨10, 1⟩, ⟨9, 1⟩].map
        ((shelfEngine.mount .zones).run shelfMoves).page.host.figure =
      [⟨9, 0⟩, ⟨10, 0⟩, ⟨11, 0⟩, ⟨12, 0⟩, ⟨13, 0⟩, ⟨14, 0⟩].map
        (shelfEngine.mount .zones).page.host.figure := by decide +kernel
  have hbound : ((shelfEngine.mount .zones).bindings.filter fun b => b.kind == .bind).map
      Binding.node = [⟨4, 0⟩] := by decide +kernel
  have htext : ((shelfEngine.mount .zones).run shelfMoves).page.host.textWeight ⟨4, 0⟩ =
      (shelfEngine.mount .zones).page.host.textWeight ⟨4, 0⟩ := by decide +kernel
  generalize shelfEngine.mount .zones = e at *
  generalize e.run shelfMoves = e' at *
  constructor
  case copies =>
    have hcopies : List.Forall₂ (fun copies copies' => ∃ shapes,
        List.Forall₂ e.page.host.Draws copies shapes ∧
          List.Forall₂ e'.page.host.Draws copies' shapes)
        (e.bindings.map Binding.rendered) (e'.bindings.map Binding.rendered) := by
      rw [hrendered, hrendered']
      simp only [List.map_cons, List.map_nil, List.cons.injEq] at hfigures
      refine .cons ⟨[], .nil, .nil⟩ (.cons ⟨_,
        .cons ⟨_, hann, rfl, rfl⟩ (.cons ⟨_, hbob, rfl, rfl⟩ .nil),
        .cons ⟨_, hann', rfl, ?_⟩ (.cons ⟨_, hbob', rfl, ?_⟩ .nil)⟩ .nil)
      · simp [Branch.map_node, hfigures]
      · simp [Branch.map_node, hfigures]
    rwa [List.forall₂_map_left_iff, List.forall₂_map_right_iff] at hcopies
  case texts =>
    rintro x ⟨b, hb, hkind, rfl⟩
    have hnode : b.node = ⟨4, 0⟩ := by
      rw [← List.mem_singleton, ← hbound]
      exact List.mem_map_of_mem (List.mem_filter.2 ⟨hb, beq_iff_eq.2 hkind⟩)
    rw [hnode]
    exact htext

/-- The names are rendered again, in the nodes that the copies before them have left. -/
theorem rerender_liveCount_shelfPage :
    shelfEngine.page.host.Sound ∧ shelfEngine.bindings = [] ∧
      (∀ b ∈ (shelfEngine.mount .zones).bindings,
        shelfEngine.page.host.Safe (shelfEngine.mount .zones).ShowsText b.node) ∧
      ((shelfEngine.mount .zones).run []).Flushes (Frugal shelfEngine.page.host) shelfMoves ∧
      (shelfEngine.mount .zones).Repeats ((shelfEngine.mount .zones).run shelfMoves) ∧
      ((shelfEngine.mount .zones).run shelfMoves).page.host.liveCount =
        (shelfEngine.mount .zones).page.host.liveCount := by
  have hsound : shelfEngine.page.host.Sound :=
    (((HostTree.sound_empty.append ⟨_, rfl⟩ rfl).append ⟨_, rfl⟩ rfl).append ⟨_, rfl⟩ rfl).append
      ⟨_, rfl⟩ rfl
  have hfresh : shelfEngine.bindings = [] := List.isEmpty_iff.1 (by decide +kernel)
  have hnodes : (shelfEngine.mount .zones).bindings.map Binding.node = [⟨4, 0⟩, ⟨2, 0⟩] := by
    decide +kernel
  have hids : ∀ x ∈ [⟨4, 0⟩, ⟨2, 0⟩], x ∈ shelfEngine.page.host.ids := by decide +kernel
  have hsafe : ∀ b ∈ (shelfEngine.mount .zones).bindings,
      shelfEngine.page.host.Safe (shelfEngine.mount .zones).ShowsText b.node := by
    intro b hb
    refine safe_of_textless (by decide +kernel) (HostTree.mem_ids_iff.1 (hids _ ?_))
    rw [← hnodes]
    exact List.mem_map_of_mem hb
  have hfrugal : ((shelfEngine.mount .zones).run []).Flushes (Frugal shelfEngine.page.host)
      shelfMoves := by
    have hname : (((shelfEngine.mount .zones).run []).move shelfUpdate).page.attributeName .bind =
        "vx-bind" := by decide +kernel
    refine ⟨fun h => Move.noConfusion h, fun _ b _ _ _ => ?_, trivial⟩
    rw [hname]
    exact HostTree.bare_of_childless (by decide +kernel) b.node
  obtain ⟨-, hcount⟩ := rerender_liveCount hsound hfresh hsafe [] shelfMoves hfrugal
  refine ⟨hsound, hfresh, hsafe, hfrugal, repeats_shelfPage, ?_⟩
  have hstart : ∀ e : Engine, e.run [] = e := fun _ => rfl
  rw [hstart] at hcount
  exact hcount repeats_shelfPage

end Engine

end ReactiveTemplate
