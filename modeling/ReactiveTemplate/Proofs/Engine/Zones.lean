import ReactiveTemplate.Proofs.Engine.Enrolment
import ReactiveTemplate.Proofs.Engine.Mounting

/-!
# Zones inside each other

Each zone is scanned on its own, so an element below several zones gets its bindings from each of
them. It gets no more than that, in whatever order the zones are scanned and whatever the bindings
of one zone have taken out before the next one is scanned.

* `Page.scanZones_enrols`: the bindings of some zones.
* `Engine.updateAll_forget`: updates keep what was declared.
* `Engine.mount_count_le`: the bindings for an element and a kind.
-/

namespace ReactiveTemplate

variable {t₀ t t' : HostTree Reaction} {bs : List Binding} {b : Binding} {x z : NodeId}

namespace Page

variable {page page' : Page} {ds : List Declaration}

/-- What is declared in a zone is declared on nodes that were below it from the beginning. -/
theorem declarations_enrolled (h : Enrolled t₀ bs page.host) (ht : t₀.Tree) (hz : t₀.Live z) :
    ∃ ds, page.declarations z = .ok ds ∧ (ds.map fun d => (d.node, d.kind)).Nodup ∧
      ∀ d ∈ ds, t₀.Live d.node ∧ t₀.Below z d.node ∧ (t₀.figure d.node).kind ≠ .text := by
  have hs := h.restorable.sound
  obtain ⟨b, rfl, hb⟩ := HostTree.exists_holds hs.tree.linked hs.tree.acyclic (h.live hz)
  obtain ⟨ds, hds, honce, hfound⟩ := declarations_of_holds hs.tree.linked hb
  refine ⟨ds, hds, honce, fun d hd => ?_⟩
  obtain ⟨hmem, hsource, -⟩ := hfound d hd
  rw [Figure.source?] at hsource
  rcases h.below ht hz (hb.mem_labels_iff.1 hmem) with ⟨hlive, hbelow⟩ | ⟨hkind, -⟩
  · refine ⟨hlive, hbelow, fun hkind => ?_⟩
    rw [h.pristine d.node hlive, hkind] at hsource
    cases hsource
  · rw [hkind] at hsource
    cases hsource

theorem registerDeclarations_enrols (ht : t₀.Tree) (first : Nat) (ds : List Declaration) :
    ∀ {bs : List Binding} {page : Page}, Enrolled t₀ bs page.host →
      (∀ d ∈ ds, t₀.Live d.node ∧ (t₀.figure d.node).kind ≠ .text) →
        ∃ made page', ds.foldl (registerDeclaration first) (bs, page) = (bs ++ made, page') ∧
          Enrolled t₀ (bs ++ made) page'.host ∧
          (made.map fun b => (b.node, b.kind)).Sublist (ds.map fun d => (d.node, d.kind)) := by
  induction ds with
  | nil =>
    intro bs page h _
    exact ⟨[], page, by rw [List.append_nil]; rfl, by rwa [List.append_nil], List.Sublist.refl _⟩
  | cons d ds ih =>
    intro bs page h hds
    obtain ⟨hnode, helement⟩ := hds d List.mem_cons_self
    obtain ⟨made₁, page₁, hregister, h₁, hkind⟩ :=
      registerDeclaration_enrols h ht hnode helement first
    obtain ⟨made, page', hrest, h', hsub⟩ := ih h₁ fun d hd => hds d (List.mem_cons_of_mem _ hd)
    refine ⟨made₁.toList ++ made, page', ?_, by rwa [← List.append_assoc], ?_⟩
    · rw [List.foldl_cons, hregister, hrest, List.append_assoc]
    · rw [List.map_append, List.map_cons]
      cases made₁ with
      | none => exact hsub.cons _
      | some b =>
        obtain ⟨hb, hbkind⟩ := hkind b rfl
        rw [Option.toList_some, List.map_singleton, hb, hbkind]
        exact hsub.cons_cons _

/-- A zone gives at most one binding for an element and a kind, and only for elements below it. -/
theorem scanZone_enrols (h : Enrolled t₀ bs page.host) (ht : t₀.Tree) (hz : t₀.Live z)
    (first : Nat) :
    ∃ made page', scanZone first (bs, page) z = (bs ++ made, page') ∧
      Enrolled t₀ (bs ++ made) page'.host ∧ (made.map fun b => (b.node, b.kind)).Nodup ∧
      ∀ b ∈ made, t₀.Below z b.node := by
  obtain ⟨ds, hds, honce, hfound⟩ := declarations_enrolled h ht hz
  let page₁ : Page := { page with
    state := page.state.log .debug
      (s!"found {ds.length} directives in " ++ page.host.describe z) }
  have h₁ : Enrolled t₀ bs page₁.host := h
  obtain ⟨made, page', hregister, h', hsub⟩ := registerDeclarations_enrols ht first ds h₁
    fun d hd => ⟨(hfound d hd).1, (hfound d hd).2.2⟩
  refine ⟨made, page', ?_, h', honce.sublist hsub, fun b hb => ?_⟩
  · rw [← hregister, scanZone]
    dsimp only
    rw [hds]
  · obtain ⟨d, hd, heq⟩ := List.mem_map.1 (hsub.subset (List.mem_map_of_mem hb))
    rw [← (Prod.mk.inj heq).1]
    exact (hfound d hd).2.1

/-- The bindings that some zones give for an element and a kind are no more than the zones that it
    is below. -/
theorem scanZones_enrols (h₀ : t₀.Sound) (first : Nat) (zones : List NodeId) :
    ∀ {bs : List Binding} {page : Page}, Enrolled t₀ bs page.host → (∀ z ∈ zones, t₀.Live z) →
      ∃ made page', zones.foldl (scanZone first) (bs, page) = (bs ++ made, page') ∧
        Enrolled t₀ (bs ++ made) page'.host ∧
        ∀ x kind, (made.map fun b => (b.node, b.kind)).count (x, kind) ≤
          zones.countP fun z => x ∈ t₀.preorder z := by
  induction zones with
  | nil =>
    intro bs page h _
    exact ⟨[], page, by rw [List.append_nil]; rfl, by rwa [List.append_nil], fun _ _ => Nat.le_refl _⟩
  | cons z zones ih =>
    intro bs page h hzones
    have hz := hzones z List.mem_cons_self
    obtain ⟨made₁, page₁, hscan, h₁, honce, hbelow⟩ := scanZone_enrols h h₀.tree hz first
    obtain ⟨made, page', hrest, h', hcount⟩ := ih h₁ fun z hz => hzones z (List.mem_cons_of_mem _ hz)
    refine ⟨made₁ ++ made, page', ?_, by rwa [← List.append_assoc], fun x kind => ?_⟩
    · rw [List.foldl_cons, hscan, hrest, List.append_assoc]
    · rw [List.map_append, List.count_append, List.countP_cons, Nat.add_comm]
      refine Nat.add_le_add (hcount x kind) ?_
      split
      · exact List.nodup_iff_count_le_one.1 honce _
      · next hout =>
        refine Nat.le_of_eq (List.count_eq_zero.2 fun hmem => hout ?_)
        obtain ⟨b, hb, heq⟩ := List.mem_map.1 hmem
        rw [← (Prod.mk.inj heq).1]
        exact decide_eq_true ((h₀.mem_preorder hz).2 (hbelow b hb))

end Page

/-! ## Updates of many bindings -/

/-- What a directive is declared as does not change with its updates. -/
theorem Page.updateDirective_forget (page : Page) (node : NodeId) (d : Directive) :
    (page.updateDirective node d).2.1.forget = d.forget := by
  cases d <;> rfl

theorem Page.update_forget (page : Page) (b : Binding) :
    (page.update b).2.1.forget = b.forget := by
  have hdirective := page.updateDirective_forget b.node b.directive
  show ({ b with directive := (page.updateDirective b.node b.directive).2.1.forget } : Binding) = _
  rw [hdirective]
  rfl

namespace Engine

/-- Error handlers act on the state alone. -/
theorem capture_apart (e : Engine) (failure : BindingFailure) :
    (e.capture failure).page.host = e.page.host ∧ (e.capture failure).bindings = e.bindings := by
  have hfold : ∀ (handlers : List ErrorHandler) (e : Engine),
      (handlers.foldl (callHandler failure) e).page.host = e.page.host ∧
        (handlers.foldl (callHandler failure) e).bindings = e.bindings := by
    intro handlers
    induction handlers with
    | nil => exact fun _ => ⟨rfl, rfl⟩
    | cons h handlers ih => exact fun e => ih (callHandler failure e h)
  exact hfold _ _

/-- An update of a binding is one of its page; its failure concerns the state alone. -/
theorem update_eq (e : Engine) (b : Binding) :
    (e.update b).2.1 = (e.page.update b).2.1 ∧
      (e.update b).2.2.page.host = (e.page.update b).2.2.host ∧
      (e.update b).2.2.bindings = e.bindings := by
  rw [update]
  rcases e.page.update b with ⟨_ | _, b', page'⟩
  · have hcapture := capture_apart { e with page := page' }
      (b'.failure (page'.host.describe b'.node) (HostError.message ‹_›))
    exact ⟨rfl, hcapture.1, hcapture.2⟩
  · exact ⟨rfl, rfl, rfl⟩

theorem updateAll_forget (bs : List Binding) :
    ∀ e : Engine, (updateAll bs e).1.map Binding.forget = bs.map Binding.forget ∧
      (updateAll bs e).2.bindings = e.bindings := by
  induction bs with
  | nil => exact fun _ => ⟨rfl, rfl⟩
  | cons b bs ih =>
    intro e
    obtain ⟨hb, -, hbindings⟩ := update_eq e b
    obtain ⟨hrest, hbindings'⟩ := ih (e.update b).2.2
    rw [updateAll, List.map_cons, List.map_cons, ← hrest, hb, e.page.update_forget, hbindings', hbindings]
    exact ⟨rfl, rfl⟩

/-! ## Mounting -/

/-- Mounting zones adds the bindings of the zones, updated. -/
theorem mountZones_bindings (e : Engine) (zones : List NodeId) :
    ∃ made, (e.mountZones zones).bindings = e.bindings ++ made ∧ made.map Binding.forget =
      (zones.foldl (Page.scanZone e.made) ([], e.page)).1.map Binding.forget := by
  let found := zones.foldl (Page.scanZone e.made) ([], e.page)
  obtain ⟨hforget, hbindings⟩ :=
    updateAll_forget found.1 { e with page := found.2, made := e.made + found.1.length }
  refine ⟨_, ?_, hforget⟩
  rw [mountZones]
  exact congrArg (· ++ _) hbindings

/-- The node and the kind of a binding are what it was declared for. -/
theorem map_pair_of_forget {bs bs' : List Binding}
    (h : bs'.map Binding.forget = bs.map Binding.forget) :
    (bs'.map fun b => (b.node, b.kind)) = bs.map fun b => (b.node, b.kind) := by
  have hpair : ∀ bs : List Binding, (bs.map fun b => (b.node, b.kind)) =
      (bs.map Binding.forget).map fun b => (b.node, b.kind) := by
    intro bs
    rw [List.map_map]
    exact List.map_congr_left fun b _ => congrArg (Prod.mk b.node) (Binding.kind_forget b).symm
  rw [hpair, h, ← hpair]

/-- The zones of a document. -/
def zones (e : Engine) : List NodeId :=
  (e.page.host.queryAll e.page.config.zoneSelector).toOption.getD []

/-- Mounting finds the zones first. Without any it only leaves a note. -/
theorem mount_of_zonesOf {e : Engine} {target : MountTarget} {zones : List NodeId}
    (hzones : zonesOf e.page target = .ok zones) :
    ∃ e₀ : Engine, e₀.page.host = e.page.host ∧ e₀.bindings = e.bindings ∧
      e.mount target = e₀.mountZones zones := by
  rw [mount, hzones]
  cases zones with
  | nil => exact ⟨e.withState (e.state.log .warn "mount found no zones"), rfl, rfl, rfl⟩
  | cons z zones => exact ⟨e, rfl, rfl, rfl⟩

/-- Nodes of which none lies in another are above a further one at most once. -/
theorem countP_preorder_le_one {t : HostTree Reaction} (h : t.Sound) {zones : List NodeId}
    (hnodup : zones.Nodup) (hlive : ∀ z ∈ zones, t.Live z)
    (hapart : ∀ z ∈ zones, ∀ z' ∈ zones, z' ∈ t.preorder z → z' = z) (x : NodeId) :
    zones.countP (fun z => x ∈ t.preorder z) ≤ 1 := by
  rw [List.countP_eq_length_filter]
  have hfiltered := hnodup.filter fun z => decide (x ∈ t.preorder z)
  have hmem : ∀ z ∈ zones.filter fun z => decide (x ∈ t.preorder z), z ∈ zones ∧ t.Below z x := by
    intro z hz
    obtain ⟨hz, hx⟩ := List.mem_filter.1 hz
    exact ⟨hz, (h.mem_preorder (hlive z hz)).1 (of_decide_eq_true hx)⟩
  match hshape : zones.filter fun z => decide (x ∈ t.preorder z) with
  | [] => exact Nat.zero_le _
  | [_] => exact Nat.le_refl _
  | z :: z' :: rest =>
    -- Of two zones above one node, one would be inside the other.
    rw [hshape] at hmem hfiltered
    obtain ⟨hz, hbelow⟩ := hmem z (by simp)
    obtain ⟨hz', hbelow'⟩ := hmem z' (by simp)
    have heq : z' = z := by
      rcases h.tree.linked.below_total hbelow hbelow' with hin | hin
      · exact hapart z hz z' hz' ((h.mem_preorder (hlive z hz)).2 hin)
      · exact (hapart z' hz' z hz ((h.mem_preorder (hlive z' hz')).2 hin)).symm
    rw [heq] at hfiltered
    exact absurd List.mem_cons_self (List.nodup_cons.1 hfiltered).1

/-- Mounting the zones of a document gives at most one binding for an element and a kind from each
    zone that the element is in. So where no zone lies inside another, no declaration is bound
    twice. -/
theorem mount_count_le {e : Engine} (h : e.page.host.Sound) (hfresh : e.bindings = [])
    (x : NodeId) (kind : DirectiveKind) :
    let bound := ((e.mount .zones).bindings.map fun b => (b.node, b.kind)).count (x, kind)
    bound ≤ e.zones.countP (fun z => x ∈ e.page.host.preorder z) ∧
      ((∀ z ∈ e.zones, ∀ z' ∈ e.zones, z' ∈ e.page.host.preorder z → z' = z) → bound ≤ 1) := by
  cases hquery : e.page.host.queryAll e.page.config.zoneSelector with
  | error error =>
    have hmount : (e.mount .zones).bindings = [] := by
      rw [mount, zonesOf, hquery]
      exact hfresh
    rw [hmount]
    exact ⟨Nat.zero_le _, fun _ => Nat.zero_le _⟩
  | ok zones =>
    have hzones : e.zones = zones := by
      rw [Engine.zones, hquery]
      rfl
    obtain ⟨hnodup, hhooked⟩ := h.tree.queryAll hquery
    have hlive : ∀ z ∈ zones, e.page.host.Live z := by
      intro z hz
      obtain ⟨p, hp⟩ := hhooked z hz
      exact h.tree.linked.live hp
    have hfound : zonesOf e.page .zones = .ok zones := hquery
    obtain ⟨e₀, hhost, hbindings, hmount⟩ := mount_of_zonesOf hfound
    have hstart : Enrolled e.page.host [] e₀.page.host := by
      rw [hhost]
      exact .start h
    obtain ⟨made, hmade, hforget⟩ := mountZones_bindings e₀ zones
    obtain ⟨found, page', hscan, -, hcount⟩ := Page.scanZones_enrols h e₀.made zones hstart hlive
    rw [hscan, List.nil_append] at hforget
    rw [hmount, hmade, hbindings, hfresh, List.nil_append, map_pair_of_forget hforget, hzones]
    refine ⟨hcount x kind, fun hapart => Nat.le_trans (hcount x kind) ?_⟩
    exact countP_preorder_le_one h hnodup hlive hapart x

/-- A page with a button in a zone that lies in another one. -/
def nestedPage : HostTree Reaction :=
  let outer := (HostTree.empty.appendElement HostTree.root "div" [("vx-zone", "")]).2
  let inner := (outer.appendElement ⟨1, 0⟩ "div" [("vx-zone", "")]).2
  (inner.appendElement ⟨2, 0⟩ "button" [("vx-on", "click: count++")]).2

theorem sound_nestedPage : nestedPage.Sound :=
  ((HostTree.sound_empty.append ⟨_, rfl⟩ rfl).append ⟨_, rfl⟩ rfl).append ⟨_, rfl⟩ rfl

/-- The button is bound by both zones, so a click on it counts twice. -/
theorem nested_zones_bind_twice :
    let e := create nestedPage (.object []) .standard
    e.page.host.Sound ∧ e.bindings = [] ∧ e.zones = [⟨1, 0⟩, ⟨2, 0⟩] ∧
      (e.mount .zones).bindings.map (fun b => (b.node, b.kind)) =
        [(⟨3, 0⟩, .events), (⟨3, 0⟩, .events)] ∧
      ((e.mount .zones).bindings.map fun b => (b.node, b.kind)).count (⟨3, 0⟩, .events) ≤
        e.zones.countP (fun z => (⟨3, 0⟩ : NodeId) ∈ e.page.host.preorder z) := by
  intro e
  exact ⟨sound_nestedPage, rfl, by decide +kernel, by decide +kernel,
    (mount_count_le sound_nestedPage rfl ⟨3, 0⟩ .events).1⟩

end Engine

end ReactiveTemplate
