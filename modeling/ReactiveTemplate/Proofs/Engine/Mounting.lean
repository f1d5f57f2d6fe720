import ReactiveTemplate.Proofs.Document.Queries
import ReactiveTemplate.Proofs.Engine.Registration
import ReactiveTemplate.Proofs.Engine.Sweeps

/-!
# Mounting a document

A document whose zones and texts are not nested is mounted without a failure. Afterwards every
binding shows the state.

* `Page.Underway`: the invariant while declarations become bindings.
* `Page.scanZones_spec`: the bindings of all zones.
* `Engine.Mounted`: what mounting gives.
* `Engine.mount_spec`: mounting the zones gives that.
-/

namespace ReactiveTemplate

variable {config : Config} {t₀ : HostTree Reaction} {bs : List Binding} {b : Binding}
  {ds ds' : List Declaration} {d : Declaration} {x y z : NodeId}

/-- In a document before mounting there is nothing that bindings keep. -/
theorem Kept.start (ht : t₀.Tree) : Kept t₀ [] t₀ where
  linked := ht.linked
  stays x hx := hx.live
  kind _ _ := rfl
  attributes _ _ := rfl
  above _ _ := .inr rfl
  slots x _ _ := by
    have hself : occupants ([] : List Binding) = fun y => [y] := rfl
    rw [hself]
    simp
  texts := nofun
  made := nofun
  ownAbove := nofun
  distinct := List.nodup_nil
  aside := nofun
  templates := nofun

/-- No element that shows a text contains another one. -/
theorem HostTree.Apart.plain (h : t₀.Apart config) {c : Branch NodeId} (hc : t₀.Holds c) :
    (c.map t₀.figure).Plain config.showsText := by
  have hpicked : ∀ y, config.showsText (t₀.figure y) = true →
      (t₀.figure y).source? (config.attributeName .bind) ≠ none := fun y hy =>
    Option.isSome_iff_ne_none.1 hy
  induction hc with
  | @node id cs hlive hchildren hbelow ih =>
    rw [Branch.map_node]
    refine .node (fun hid c' hc' f hf => ?_) fun c' hc' => ?_
    · obtain ⟨c, hmem, rfl⟩ := List.mem_map.1 hc'
      rw [Branch.labels_map] at hf
      obtain ⟨y, hy, rfl⟩ := List.mem_map.1 hf
      by_contra hshows
      have hwhole : t₀.Holds (.node id cs) := .node hlive hchildren hbelow
      have hmem' : y ∈ (Branch.node id cs).labels := by
        rw [Branch.labels_node]
        exact List.mem_cons_of_mem _ (List.mem_flatMap.2 ⟨c, hmem, hy⟩)
      have heq := h.texts id y .bind (hpicked _ hid) (hpicked _ (by simpa using hshows))
        (hwhole.mem_labels_iff.1 hmem')
      exact hwhole.label_not_mem hmem (heq ▸ hy)
    · obtain ⟨c, hmem, rfl⟩ := List.mem_map.1 hc'
      exact ih c hmem

/-! ## Zones -/

/-- The elements that a selector means are below the document node, and no two are the same. -/
theorem HostTree.Tree.queryAll (ht : t₀.Tree) {selector : String} {found : List NodeId}
    (hfound : t₀.queryAll selector = .ok found) :
    found.Nodup ∧ ∀ z ∈ found, ∃ p, z ∈ t₀.children p := by
  cases hparse : Selector.parse selector with
  | error e =>
    rw [HostTree.queryAll, hparse] at hfound
    cases hfound
  | ok parsed =>
    obtain ⟨ids, hids, hpicks⟩ := ht.queryAll_picks hparse
    obtain rfl := Except.ok.inj (hids.symm.trans hfound)
    refine ⟨hpicks.nodup, fun z hz => ?_⟩
    obtain ⟨hbelow, hselected⟩ := (hpicks.mem_iff z).1 hz
    rcases Relation.ReflTransGen.cases_tail hbelow with heq | ⟨p, -, hp⟩
    · exact absurd heq hselected.1
    · exact ⟨p, hp⟩

namespace Page

variable {page₀ page page' : Page}

/-- The invariant while the declarations of a plan become bindings. -/
structure Underway (t₀ : HostTree Reaction) (page₀ page : Page) (bs : List Binding)
    (ds : List Declaration) : Prop where
  calm : page₀.Calm page
  ready : page.Registering t₀ bs
  plan : Plan page₀.config t₀ ds
  made : (bs.map Binding.declaration).Sublist ds

theorem registerDeclaration_spec (h : Underway t₀ page₀ page bs ds)
    (hplan : Plan page₀.config t₀ (ds ++ [d])) (first : Nat) :
    ∃ bs' page', registerDeclaration first (bs, page) d = (bs', page') ∧
      Underway t₀ page₀ page' bs' (ds ++ [d]) := by
  have hregistrable : Registrable t₀ page bs d := by
    refine ⟨h.ready, ?_⟩
    rw [h.calm.config]
    exact hplan.sublist (h.made.append (List.Sublist.refl _))
  obtain ⟨made, page', hregister, hregistered⟩ := register_spec hregistrable (first + bs.length)
  refine ⟨bs ++ made.toList, page', ?_, h.calm.trans hregistered.calm, hregistered.next, hplan, ?_⟩
  · rw [registerDeclaration, hregister]
    cases made with
    | none => simp
    | some b => rfl
  · rw [List.map_append]
    refine h.made.append ?_
    cases made with
    | none => simp
    | some b => simp [hregistered.declaration b rfl]

theorem registerDeclarations_spec (first : Nat) (ds' : List Declaration) :
    ∀ {bs : List Binding} {page : Page} {ds : List Declaration}, Underway t₀ page₀ page bs ds →
      Plan page₀.config t₀ (ds ++ ds') →
        ∃ bs' page', ds'.foldl (registerDeclaration first) (bs, page) = (bs', page') ∧
          Underway t₀ page₀ page' bs' (ds ++ ds') := by
  induction ds' with
  | nil =>
    intro bs page ds h _
    rw [List.append_nil]
    exact ⟨bs, page, rfl, h⟩
  | cons d ds' ih =>
    intro bs page ds h hplan
    rw [List.append_cons] at hplan ⊢
    have hnext := hplan.sublist (List.sublist_append_left _ _)
    obtain ⟨bs₁, page₁, hregister, h₁⟩ := registerDeclaration_spec h hnext first
    obtain ⟨bs', page', hrest, h'⟩ := ih h₁ hplan
    refine ⟨bs', page', ?_, h'⟩
    rw [List.foldl_cons, hregister, hrest]

/-- A further zone, which lies apart from those where bindings were made. -/
theorem scanZone_spec (h : Underway t₀ page₀ page bs ds) (hapart : t₀.Apart page₀.config)
    (hz : ∃ p, z ∈ t₀.children p)
    (hout : ∀ d ∈ ds, ∃ z', t₀.Below z' d.node ∧ ¬ t₀.Below z z' ∧ ¬ t₀.Below z' z) (first : Nat) :
    ∃ bs' page' ds', scanZone first (bs, page) z = (bs', page') ∧
      Underway t₀ page₀ page' bs' (ds ++ ds') ∧ ∀ d ∈ ds', t₀.Below z d.node := by
  have hr := h.ready
  obtain ⟨p, hp⟩ := hz
  obtain ⟨c, rfl, hc₀⟩ := HostTree.exists_holds hr.tree.linked hr.tree.acyclic (hr.tree.linked.live hp)
  have hcross : ∀ d ∈ ds, ∀ y, t₀.Below c.label y →
      ¬ t₀.Below d.node y ∧ ¬ t₀.Below y d.node := by
    intro d hd y hy
    obtain ⟨z', hz', hnot, hnot'⟩ := hout d hd
    have hnone : ∀ w, t₀.Below c.label w → ¬ t₀.Below z' w := fun w hw hw' =>
      (hr.tree.linked.below_total hw hw').elim hnot hnot'
    exact ⟨fun hbelow => hnone y hy (hz'.trans hbelow),
      fun hbelow => hnone d.node (hy.trans hbelow) hz'⟩
  have hc : page.host.Holds c := hr.kept.holds hr.tree hr.fresh hc₀ fun b hb hbelow => by
    have hmem : b.declaration ∈ ds := h.made.subset (List.mem_map_of_mem hb)
    exact absurd (HostTree.Below.refl t₀ b.node) (hcross _ hmem b.node hbelow).1
  have hapart' : t₀.Apart page.config := by
    rw [h.calm.config]
    exact hapart
  obtain ⟨ds', hdeclarations, hplan, hbelow⟩ :=
    declarations_spec hr.kept.linked hc₀ hc hr.pristine hp hapart'
  rw [h.calm.config] at hplan
  have hall := h.plan.append hplan fun d hd d' hd' => hcross d hd d'.node (hbelow d' hd')
  let found := ds'.length
  let state := page.state.log .debug
    (s!"found {found} directives in " ++ page.host.describe c.label)
  have hlogged : Underway t₀ page₀ { page with state := state } bs ds :=
    ⟨⟨h.calm.config, h.calm.store, h.calm.scheduler, h.calm.cache⟩, ⟨hr.tree, hr.kept, hr.cache,
      hr.fresh, hr.bare, hr.pristine, hr.asked, hr.heard, hr.grammatical⟩, h.plan, h.made⟩
  obtain ⟨bs', page', hregister, h'⟩ := registerDeclarations_spec first ds' hlogged hall
  refine ⟨bs', page', ds', ?_, h', hbelow⟩
  rw [scanZone]
  dsimp only
  rw [hdeclarations]
  exact hregister

/-- The bindings of zones that lie apart from each other. -/
theorem scanZones_spec (hapart : t₀.Apart page₀.config) (first : Nat) (zones : List NodeId) :
    ∀ {bs : List Binding} {page : Page} {ds : List Declaration}, Underway t₀ page₀ page bs ds →
      (∀ z ∈ zones, ∃ p, z ∈ t₀.children p) →
      (zones.Pairwise fun z z' => ¬ t₀.Below z z' ∧ ¬ t₀.Below z' z) →
      (∀ d ∈ ds, ∃ z', t₀.Below z' d.node ∧ ∀ z ∈ zones, ¬ t₀.Below z z' ∧ ¬ t₀.Below z' z) →
        ∃ bs' page' ds', zones.foldl (scanZone first) (bs, page) = (bs', page') ∧
          Underway t₀ page₀ page' bs' ds' := by
  induction zones with
  | nil => exact fun h _ _ _ => ⟨_, _, _, rfl, h⟩
  | cons z zones ih =>
    intro bs page ds h hhooked hpairwise hout
    rw [List.pairwise_cons] at hpairwise
    obtain ⟨bs₁, page₁, ds₁, hscan, h₁, hbelow⟩ := scanZone_spec h hapart (hhooked z (by simp))
      (fun d hd => (hout d hd).imp fun z' hz' => ⟨hz'.1, hz'.2 z (by simp)⟩) first
    have hout₁ : ∀ d ∈ ds ++ ds₁, ∃ z', t₀.Below z' d.node ∧
        ∀ w ∈ zones, ¬ t₀.Below w z' ∧ ¬ t₀.Below z' w := by
      intro d hd
      rcases List.mem_append.1 hd with hd | hd
      · obtain ⟨z', hz', hapart'⟩ := hout d hd
        exact ⟨z', hz', fun w hw => hapart' w (by simp [hw])⟩
      · exact ⟨z, hbelow d hd, fun w hw => (hpairwise.1 w hw).symm⟩
    obtain ⟨bs', page', ds', hrest, h'⟩ := ih h₁ (fun w hw => hhooked w (by simp [hw]))
      hpairwise.2 hout₁
    refine ⟨bs', page', ds', ?_, h'⟩
    rw [List.foldl_cons, hscan, hrest]

/-- Bindings that were made and not yet updated can be updated. -/
theorem Underway.update (h : Underway t₀ page₀ page bs ds) (hapart : t₀.Apart page₀.config)
    (hunlocked : ∀ c, page₀.state.heap.isLocked c = false) : page.Ready t₀ bs := by
  have hr := h.ready
  refine ⟨hr.tree, hr.kept, ?_, hr.cache, ?_, ?_⟩
  · rw [h.calm.config]
    exact h.plan.declared h.made
  · rw [h.calm.heap]
    exact hunlocked
  · rintro b - shape ⟨c, hc, -, rfl⟩
    rw [h.calm.config]
    exact hapart.plain hc

end Page

/-! ## Mounting -/

namespace Engine

variable {e : Engine}

/-- What mounting the zones of an engine without bindings gives: bindings that show the state. -/
structure Mounted (t₀ : HostTree Reaction) (e e' : Engine) : Prop where
  calm : e.page.Calm e'.page
  ready : e'.page.Ready t₀ e'.bindings
  shows : ∀ b ∈ e'.bindings, e'.page.Shows t₀ b
  asked : ∀ b ∈ e'.bindings, b.AskedFor e.page.config t₀
  /-- Only the nodes of bindings have got listeners. -/
  heard : ∀ y, (∃ b ∈ e'.bindings, b.node = y) ∨ e'.page.host.listenersOf y = [] ∨
    e'.page.host.listenersOf y = t₀.listenersOf y
  grammatical : e'.page.host.Grammatical
  lists : ∀ b ∈ e'.bindings, ∃ shapes, e'.page.Lists b shapes

/-- Quiet steps keep what mounting gives. -/
theorem Mounted.quiet {e' e'' : Engine} (h : Mounted t₀ e e') (hcalm : e'.page.Calm e''.page)
    (hhost : e''.page.host = e'.page.host) (hbindings : e''.bindings = e'.bindings) :
    Mounted t₀ e e'' := by
  constructor
  case calm => exact h.calm.trans hcalm
  case ready =>
    rw [hbindings]
    refine h.ready.carry hcalm.config hhost hcalm.cache ?_
    rw [hcalm.heap]
    exact h.ready.unlocked
  case shows =>
    rw [hbindings]
    exact fun b hb => (Page.shows_of_store hcalm.config hcalm.store hhost).2 (h.shows b hb)
  case asked =>
    rw [hbindings]
    exact h.asked
  case heard =>
    rw [hbindings, hhost]
    exact h.heard
  case grammatical =>
    rw [hhost]
    exact h.grammatical
  case lists =>
    rw [hbindings]
    intro b hb
    obtain ⟨shapes, hlists⟩ := h.lists b hb
    refine ⟨shapes, ?_⟩
    rw [Page.Lists, hhost]
    exact hlists

/-- An engine that has got no bindings. -/
theorem Mounted.unbound {e' : Engine} (hbindings : e'.bindings = []) (ht : e.page.host.Tree)
    (hcalm : e.page.Calm e'.page) (hhost : e'.page.host = e.page.host)
    (hgrammatical : e.page.host.Grammatical)
    (hunlocked : ∀ c, e.page.state.heap.isLocked c = false) : Mounted e.page.host e e' := by
  constructor
  case calm => exact hcalm
  case ready =>
    rw [hbindings]
    have hkept : Kept e.page.host [] e'.page.host := by
      rw [hhost]
      exact Kept.start ht
    refine ⟨ht, hkept, ⟨nofun, List.nodup_nil, nofun, nofun, nofun⟩, hcalm.cache, ?_, nofun⟩
    rw [hcalm.heap]
    exact hunlocked
  case shows =>
    rw [hbindings]
    exact nofun
  case asked =>
    rw [hbindings]
    exact nofun
  case heard =>
    rw [hhost]
    exact fun _ => .inr (.inr rfl)
  case grammatical =>
    rw [hhost]
    exact hgrammatical
  case lists =>
    rw [hbindings]
    exact nofun

/-- An engine whose bindings were declared and then updated for the first time. -/
theorem Mounted.of_swept {e' : Engine} {page : Page} {bs : List Binding} {ds : List Declaration}
    (h : Page.Underway t₀ e.page page bs ds) {page' : Page} {bs' : List Binding}
    (hswept : Page.Swept t₀ (fun _ => True) page page' [] bs bs') (hpage : e'.page = page')
    (hbindings : e'.bindings = bs') : Mounted t₀ e e' := by
  subst hpage hbindings
  have hsame : ∀ b' ∈ e'.bindings, ∃ b ∈ bs, b'.forget = b.forget ∧
      Page.Carries t₀ (fun _ => True) page e'.page b b' := by
    intro b' hb'
    obtain ⟨b, hb, hcarries⟩ := Page.exists_of_forall₂ hswept.carried.flip hb'
    exact ⟨b, hb, hcarries.same, hcarries⟩
  constructor
  case calm => exact h.calm.trans hswept.calm
  case ready => exact hswept.ready
  case shows =>
    intro b' hb'
    obtain ⟨b, -, -, hcarries⟩ := hsame b' hb'
    exact hcarries.shows (.inl trivial)
  case asked =>
    intro b' hb'
    obtain ⟨b, hb, hforget, -⟩ := hsame b' hb'
    rw [← h.calm.config]
    exact (Binding.askedFor_of_forget hforget).2 (h.ready.asked b hb)
  case heard =>
    intro y
    rcases HostTree.listenersOf_of_keepsListeners hswept.listeners y with hempty | hsame
    · exact .inr (.inl hempty)
    · rw [hsame]
      refine (h.ready.heard y).imp_left ?_
      rintro ⟨b, hb, hnode⟩
      obtain ⟨b', hb', hcarries⟩ := Page.exists_of_forall₂ hswept.carried hb
      have hnode' := congrArg Binding.node hcarries.same
      exact ⟨b', hb', hnode'.trans hnode⟩
  case grammatical =>
    exact h.ready.grammatical.of_kept (HostTree.listenersOf_of_keepsListeners hswept.listeners)
  case lists =>
    intro b' hb'
    obtain ⟨b, hb, -, hcarries⟩ := hsame b' hb'
    have hbare : page.Lists b [] := by
      rw [Page.Lists, h.ready.bare b hb]
      exact .nil
    obtain ⟨shapes, hlists, -⟩ :=
      hcarries.lists_after hswept.calm (hcarries.shows (.inl trivial)) hbare
    exact ⟨shapes, hlists⟩

theorem mountZones_spec {e : Engine} {zones : List NodeId} (hbindings : e.bindings = [])
    (ht : e.page.host.Tree) (hapart : e.page.host.Apart e.page.config)
    (hgrammatical : e.page.host.Grammatical) (hcache : e.page.cache.Sound)
    (hunlocked : ∀ c, e.page.state.heap.isLocked c = false) (hnodup : zones.Nodup)
    (hzones : ∀ z ∈ zones, ∃ p, z ∈ e.page.host.children p)
    (hnested : ∀ z ∈ zones, ∀ z' ∈ zones, e.page.host.Below z z' → z = z') :
    Mounted e.page.host e (e.mountZones zones) := by
  have hstart : Page.Underway e.page.host e.page e.page [] [] :=
    ⟨Page.Calm.refl hcache, ⟨ht, Kept.start ht, hcache, nofun, nofun, fun _ _ => rfl, nofun,
      fun _ => .inr (.inr rfl), hgrammatical⟩, ⟨nofun, List.nodup_nil, nofun, nofun, nofun, nofun⟩,
      List.Sublist.refl _⟩
  have hpairwise : zones.Pairwise fun z z' =>
      ¬ e.page.host.Below z z' ∧ ¬ e.page.host.Below z' z :=
    hnodup.imp_of_mem fun hz hz' hne =>
      ⟨fun hbelow => hne (hnested _ hz _ hz' hbelow),
        fun hbelow => hne (hnested _ hz' _ hz hbelow).symm⟩
  obtain ⟨bs, page, ds, hscan, h⟩ :=
    Page.scanZones_spec hapart e.made zones hstart hzones hpairwise nofun
  let e₁ : Engine := { e with page := page, made := e.made + bs.length }
  have hready : e₁.page.Ready e.page.host ([] ++ bs) := h.update hapart hunlocked
  obtain ⟨bs', page', hall, hswept⟩ := updateAll_spec bs hready
  let e₂ : Engine := { e₁ with page := page', bindings := bs' }
  have hmounted : Mounted e.page.host e e₂ := Mounted.of_swept h hswept rfl rfl
  let mounted := bs'.length
  have hmount : e.mountZones zones = e₂.withState (e₂.state.log .info
      s!"mounted {zones.length} zone(s) with {mounted} binding(s)") := by
    rw [mountZones, hscan]
    dsimp only
    rw [hall, hbindings]
    rfl
  rw [hmount]
  exact hmounted.quiet ⟨rfl, rfl, rfl, hmounted.ready.cache⟩ rfl rfl

/-- Mounting the zones of a document in which they and the texts are not nested. -/
theorem mount_spec {e : Engine} (hbindings : e.bindings = [])
    (ht : e.page.host.Tree) (hapart : e.page.host.Apart e.page.config)
    (hgrammatical : e.page.host.Grammatical) (hcache : e.page.cache.Sound)
    (hunlocked : ∀ c, e.page.state.heap.isLocked c = false) :
    Mounted e.page.host e (e.mount .zones) := by
  cases hquery : e.page.host.queryAll e.page.config.zoneSelector with
  | error error =>
    have hmount : e.mount .zones =
        { e with page := e.page.record .bindingUpdateError "mount" error.message } := by
      rw [mount, zonesOf, hquery]
    rw [hmount]
    exact Mounted.unbound hbindings ht ⟨rfl, rfl, rfl, hcache⟩ rfl hgrammatical hunlocked
  | ok zones =>
    obtain ⟨hnodup, hhooked⟩ := ht.queryAll hquery
    cases zones with
    | nil =>
      let e' := e.withState (e.state.log .warn "mount found no zones")
      have hmount : e.mount .zones = e'.mountZones [] := by
        rw [mount, zonesOf, hquery]
      have hmounted : Mounted e.page.host e' (e'.mountZones []) :=
        mountZones_spec (e := e') hbindings ht hapart hgrammatical hcache hunlocked List.nodup_nil
          nofun nofun
      have hcalm : e.page.Calm e'.page := ⟨rfl, rfl, rfl, hcache⟩
      rw [hmount]
      exact ⟨hcalm.trans hmounted.calm, hmounted.ready, hmounted.shows, hmounted.asked,
        hmounted.heard, hmounted.grammatical, hmounted.lists⟩
    | cons z zones =>
      have hmount : e.mount .zones = e.mountZones (z :: zones) := by
        rw [mount, zonesOf, hquery]
      rw [hmount]
      exact mountZones_spec hbindings ht hapart hgrammatical hcache hunlocked hnodup hhooked
        (hapart.zones _ hquery)

end Engine

end ReactiveTemplate
