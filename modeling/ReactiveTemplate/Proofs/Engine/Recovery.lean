import ReactiveTemplate.Proofs.Document.Lists
import ReactiveTemplate.Proofs.Engine.Abreast

/-!
# Lists whose copies were taken away

The host may destroy copies of a list, or take them out of the document. The next update of the list
puts that right: it clears away what is left of the old copies, and makes the new ones. That some
could not be cleared away is reported afterwards.

* `Page.Renewed`: what an update of a list has made of a page.
* `Page.renderItems_aged`: how often slots are released while copies are made.
* `Page.updateRepetition_recovers`: an update of a list, whichever copies are still there.
* `Page.update_completes`: the same after the host has destroyed or taken out some of them.
-/

namespace ReactiveTemplate

variable {t t' : HostTree Reaction} {template placeholder anchor copy p : NodeId}
  {rendered : List NodeId}

/-- Texts without children show no texts and contain no element that does. -/
theorem HostTree.Holds.lasting {b : Branch NodeId} (hb : t.Holds b)
    (hbare : ∀ y ∈ b.labels, (t.figure y).kind = .text → t.children y = []) (config : Config) :
    (b.map t.figure).Lasting config := by
  induction b using Branch.induction with
  | h id bs ih =>
    obtain @⟨_, _, -, -, hbs⟩ := hb
    have hin : ∀ d ∈ bs, ∀ y ∈ d.labels, y ∈ (Branch.node id bs).labels := fun d hd y hy => by
      rw [Branch.labels_node]
      exact List.mem_cons_of_mem _ (List.mem_flatMap.2 ⟨d, hd, hy⟩)
    rw [Branch.map_node]
    refine .node (fun _ x hx htext g hg => ?_) fun x hx => ?_
    · obtain ⟨d, hd, rfl⟩ := List.mem_map.1 hx
      rw [Branch.label_map] at htext
      have hempty := hbare _ (hin d hd _ d.label_mem_labels) htext
      obtain @⟨y, ds, -, hchildren, -⟩ := hbs d hd
      obtain rfl : ds = [] := List.map_eq_nil_iff.1 (hchildren.symm.trans hempty)
      rw [Branch.map_node, Branch.labels_node, List.map_nil, List.flatMap_nil,
        List.mem_singleton] at hg
      rw [hg, Config.showsText, Figure.source?, show (t.figure y).kind = .text from htext]
      rfl
    · obtain ⟨d, hd, rfl⟩ := List.mem_map.1 hx
      exact ih d hd (hbs d hd) fun y hy => hbare y (hin d hd y hy)

/-- A copy has as many nodes as its template. -/
theorem HostTree.length_preorder_cloneNode (hs : t.Sound)
    (hclone : t.cloneNode template = (.ok copy, t')) :
    (t'.preorder copy).length = (t.preorder template).length := by
  obtain ⟨b, rfl, hb⟩ :=
    HostTree.exists_holds hs.tree.linked hs.tree.acyclic (Page.live_of_cloneNode hclone)
  obtain ⟨c, t₁, hclone₁, hcopied⟩ := HostTree.cloneNode_spec hs.tree.linked hb
  rw [hclone, Prod.mk.injEq, Except.ok.injEq] at hclone₁
  obtain ⟨rfl, rfl⟩ := hclone₁
  rw [hcopied.holds.preorder hcopied.linked, hb.preorder hs.tree.linked]
  simpa only [Branch.labels_map, List.length_map] using
    congrArg (fun shape => shape.labels.length) hcopied.shape

namespace Page

variable {page page' page₁ page₂ : Page} {clause : ForClause} {values : List Value}

/-! ## Releases -/

theorem renderElement_aged (kind : DirectiveKind) (scope : Scope) (page : Page) (element : NodeId) :
    page.host.AgedBy (if kind = .bind then 1 else 0) (renderElement kind scope page element).2.host := by
  rw [renderElement]
  cases page.host.attribute? element (page.attributeName kind) with
  | none => exact (HostTree.AgedBy.refl _).mono (Nat.zero_le _)
  | some source =>
    have hhost := evaluate_host (page.compile source .loop).2 (page.compile source .loop).1 scope
    dsimp only
    generalize (page.compile source .loop).2.evaluate (page.compile source .loop).1 scope = evaluated
      at hhost ⊢
    obtain ⟨value, page'⟩ := evaluated
    have hhost' : page'.host = page.host := hhost
    cases kind with
    | bind =>
      refine edit_keeps (Q := page.host.AgedBy 1) ?_ fun t' hset => ?_
      · rw [hhost']
        exact (HostTree.AgedBy.refl _).mono (Nat.zero_le 1)
      · rw [hhost'] at hset
        exact (HostTree.aged_setText hset).agedBy_one
    | visibility | presence | repetition | model | events =>
      refine edit_keeps (Q := page.host.AgedBy 0) ?_ fun t' hset => ?_
      · rw [hhost']
        exact .refl _
      · rw [hhost'] at hset
        exact (HostTree.touched_update hset).filled.agedBy_zero

/-- As many releases as steps, if each of them has one. -/
theorem untilFailure_aged {β : Type} {step : Page → β → Except HostError Unit × Page} {n : Nat}
    (hstep : ∀ (page : Page) (x : β), page.host.AgedBy n (step page x).2.host) (xs : List β) :
    ∀ page : Page, page.host.AgedBy (xs.length * n) (untilFailure step xs page).2.host := by
  induction xs with
  | nil => exact fun page => (HostTree.AgedBy.refl _).mono (Nat.zero_le _)
  | cons x xs ih =>
    intro page
    have hfirst := hstep page x
    rw [untilFailure.eq_def, List.length_cons, Nat.add_mul, Nat.one_mul, Nat.add_comm]
    dsimp only
    generalize step page x = r at hfirst ⊢
    obtain ⟨_ | _, page'⟩ := r
    · exact hfirst.mono (Nat.le_add_right _ _)
    · exact hfirst.trans (ih page')

theorem renderKind_aged (scope : Scope) (copy : NodeId) (page : Page) (kind : DirectiveKind) :
    page.host.AgedBy (if kind = .bind then (page.host.preorder copy).length else 0)
      (renderKind scope copy page kind).2.host := by
  rw [renderKind, HostTree.withAttribute]
  cases page.host.get copy with
  | error e => exact (HostTree.AgedBy.refl _).mono (Nat.zero_le _)
  | ok n =>
    refine (untilFailure_aged (renderElement_aged kind scope) _ page).mono ?_
    split
    · rw [Nat.mul_one]
      exact List.length_filter_le _ _
    · exact Nat.le_of_eq (Nat.mul_zero _)

/-- While a copy is rendered, a slot is released at most as often as the copy has nodes. -/
theorem renderCopy_aged (page : Page) (copy : NodeId) (item : String) (value : Value) :
    page.host.AgedBy (page.host.preorder copy).length (page.renderCopy copy item value).2.host := by
  have hfirst := renderKind_aged (.item item value page.state.scope) copy page .bind
  rw [if_pos rfl] at hfirst
  rw [renderCopy, templateKinds, untilFailure.eq_def]
  dsimp only
  generalize renderKind (.item item value page.state.scope) copy page .bind = r at hfirst ⊢
  obtain ⟨_ | _, page'⟩ := r
  · exact hfirst
  · have hsecond := renderKind_aged (.item item value page.state.scope) copy page' .visibility
    rw [if_neg (by decide)] at hsecond
    dsimp only
    rw [untilFailure.eq_def]
    dsimp only
    generalize renderKind (.item item value page.state.scope) copy page' .visibility = r' at hsecond ⊢
    obtain ⟨_ | _, page''⟩ := r' <;> exact hfirst.trans hsecond

/-- While a copy is rendered and placed, a slot is released at most as often as the copy has nodes. -/
theorem placeCopy_aged (page : Page) (anchor copy : NodeId) (item : String) (value : Value) :
    page.host.AgedBy (page.host.weight copy) (page.placeCopy anchor copy item value).2.host := by
  have haged := renderCopy_aged page copy item value
  rw [placeCopy]
  generalize page.renderCopy copy item value = r at haged
  obtain ⟨_ | _, page₁⟩ := r
  · exact haged
  · exact haged.trans (HostTree.touched_insertAfter page₁.host anchor copy).filled.agedBy_zero

/-! ## Soundness -/

theorem eq_of_editPartly {β : Type} {edited : Except HostError β × HostTree Reaction}
    {r : Except HostError β} (h : page.editPartly edited = (r, page₁)) :
    edited = (r, page₁.host) ∧ page₁.config = page.config := by
  rw [editPartly, Prod.mk.injEq] at h
  obtain ⟨rfl, rfl⟩ := h
  exact ⟨rfl, rfl⟩

/-- Behind a copy that was rendered and placed the next one can be put. -/
theorem placeItem_copyable {allowed : String → Prop} {item : String} {value : Value}
    (h : Copyable page.config allowed template anchor page.host)
    (hclone : page.editPartly (page.host.cloneNode template) = (.ok copy, page₁))
    (hplace : page₁.placeCopy anchor copy item value = (.ok (), page₂)) :
    Copyable page.config allowed template copy page₂.host ∧
      page.host.AgedBy (page.host.preorder template).length page₂.host := by
  obtain ⟨hcloned, hconfig⟩ := eq_of_editPartly hclone
  rw [← hconfig] at h ⊢
  obtain ⟨hnew, hdraft, hasks⟩ := h.drafted hcloned
  have hstable := (Drafted.renders h.sound hnew page₁.config allowed).stable
  have hrendered := (renderCopy_keeps hstable ⟨hdraft, hasks⟩ item value).2
  have hfilled : page.host.AgedBy 0 (page.host.cloneNode template).2 :=
    (HostTree.filled_cloneWithin _ page.host template).agedBy_zero
  rw [hcloned] at hfilled
  have haged := hfilled.trans (placeCopy_aged page₁ anchor copy item value)
  rw [Nat.zero_add, HostTree.weight, HostTree.length_preorder_cloneNode h.sound hcloned, hplace] at haged
  rw [placeCopy] at hplace
  generalize page₁.renderCopy copy item value = r at hrendered hplace
  obtain ⟨_ | _, page₃⟩ := r
  · cases hplace
  · obtain ⟨hinserted, -⟩ := eq_of_editPartly hplace
    exact ⟨h.next (live_of_cloneNode hcloned) hnew hrendered.1 hrendered.2 hinserted, haged⟩

/-- After a copy for each item the document is well-formed, and no slot was released more often
    than the copies have nodes. -/
theorem renderItems_aged (item : String) (earlier : Option HostError) {b : Branch NodeId}
    {back : List NodeId} {config : Config} {shape : Branch Figure} (hlasting : shape.Lasting config)
    (hp : p ∉ b.labels) (values : List Value) :
    ∀ {page : Page} {anchor : NodeId} {front : List NodeId} (rendered : List NodeId),
      page.cache.Sound → page.config = config →
      Copyable config (fun _ => True) b.label anchor page.host → page.host.Holds b →
      b.map page.host.figure = shape → page.host.children p = front ++ anchor :: back →
        let t' := (renderItems item b.label earlier values anchor rendered page).2.2.host
        t'.Sound ∧ page.host.AgedBy (values.length * b.labels.length) t' := by
  induction values with
  | nil =>
    intro page anchor front rendered _ _ hcopyable _ _ _
    exact ⟨hcopyable.sound, (HostTree.AgedBy.refl _).mono (Nat.zero_le _)⟩
  | cons value values ih =>
    rintro page anchor front rendered hc rfl hcopyable hb rfl hchildren
    have hl := hcopyable.sound.tree.linked
    obtain ⟨page₁, copy, page₂, hclone, hplace, hchildren₂, h₂⟩ :=
      placeItem_spec hc hl hb hlasting hchildren item value
    obtain ⟨hcopyable₂, haged⟩ := placeItem_copyable hcopyable hclone hplace
    have hsame : ∀ y ∈ b.labels, page₂.host.node? y = page.host.node? y := by
      intro y hy
      refine h₂.kept y (hb.live hy) ?_
      rintro rfl
      exact hp hy
    rw [List.append_cons] at hchildren₂
    rw [renderItems, hclone]
    dsimp only
    rw [hplace]
    dsimp only
    obtain ⟨hsound, haged'⟩ := ih (rendered ++ [copy]) h₂.calm.cache h₂.calm.config hcopyable₂
      (hb.frame hsame) (b.map_congr fun y hy => HostTree.figure_eq_of_node?_eq (hsame y hy))
      hchildren₂
    rw [hb.preorder hl] at haged
    rw [List.length_cons, Nat.add_mul, Nat.one_mul, Nat.add_comm]
    exact ⟨hsound, haged.trans haged'⟩

/-! ## Lists -/

/-- What an update of a list has made of a page: one rendered copy of the template for each value, in
    the order of the values and right behind the placeholder, among the nodes that stood there
    beside the old copies. -/
structure Renewed (page page' : Page) (clause : ForClause) (template placeholder : NodeId)
    (rendered copies : List NodeId) (values : List Value) : Prop where
  carries : page'.host.CarriesList template placeholder copies
  live : ∀ x ∈ copies, page'.host.Live x
  behind : ∃ p front back, page.host.parent? placeholder = some p ∧
    (page.host.children p).filter (· ∉ rendered) = front ++ placeholder :: back ∧
    page'.host.children p = front ++ placeholder :: (copies ++ back)
  drawn : ∃ shape, page'.host.Draws template shape ∧ List.Forall₂ (fun x value =>
    page'.host.Draws x (shape.rendered page.config page.state.heap
      (.item clause.item value page.state.scope))) copies values

/-- The old copies are gone at some time, and the new ones are made afterwards. -/
def Replaces (t t' : HostTree Reaction) (rendered copies : List NodeId) (releases : Nat) : Prop :=
  ∃ t₁, t.AgedBy 1 t₁ ∧ t₁.AgedBy releases t' ∧ (∀ c ∈ rendered, ¬ t₁.Live c) ∧
    ∀ x ∈ copies, ¬ t₁.Live x

/-- Where placed copies stand beside a template, the document carries them. -/
theorem ItemsPlaced.carriesList {b : Branch NodeId} {shapeOf : Value → Branch Figure}
    {copies front back : List NodeId}
    (h : ItemsPlaced page page' p shapeOf copies values)
    (hcarries : page.host.CarriesList b.label placeholder rendered) (hb : page.host.Holds b)
    (hsame : ∀ y ∈ b.labels, page'.host.node? y = page.host.node? y)
    (hplaceholder : page.host.Live placeholder) (hs : page'.host.Sound)
    (hchildren : page'.host.children p = front ++ placeholder :: (copies ++ back)) :
    page'.host.CarriesList b.label placeholder copies := by
  have hb' := hb.frame hsame
  have hold : ∀ {y}, page'.host.Below b.label y → y ∈ b.labels := hb'.mem_labels_iff.2
  have hchild : ∀ c ∈ copies, c ∈ page'.host.children p := fun c hc => by simp [hchildren, hc]
  have hnodup := hs.tree.linked.nodup p
  rw [hchildren, List.nodup_append, List.nodup_cons, List.nodup_append] at hnodup
  refine ⟨hs, ?_, hb'.live_label, ?_, fun y hy hkind => ?_, fun hbelow => ?_, hnodup.2.1.2.1,
    fun c hc d hd hne => hs.tree.siblings_apart (hchild c hc) (hchild d hd) hne,
    fun c hc => hs.tree.linked.ne_root (hchild c hc),
    fun c hc hbelow => h.new c hc _ hbelow hplaceholder,
    fun c hc => ⟨fun hbelow => h.new c hc _ hbelow hb.live_label, fun hbelow => ?_⟩⟩
  · rw [hs.tree.linked.child (c := placeholder) (p := p) (by simp [hchildren])]
    rfl
  · rw [HostTree.figure_eq_of_node?_eq (hsame _ b.label_mem_labels)]
    exact hcarries.element
  · have hmem := hold hy
    rw [HostTree.figure_eq_of_node?_eq (hsame y hmem)] at hkind
    rw [HostTree.children_eq_of_node?_eq (hsame y hmem)]
    exact hcarries.plain y (hb.mem_labels_iff.1 hmem) hkind
  · exact hcarries.outside (hb.mem_labels_iff.1 (hold hbelow))
  · exact h.new c hc c (HostTree.Below.refl _ c) (hb.live (hold hbelow))

/-- An update of a list puts it in order, whichever copies are still there. It fails if one of them
    is gone, and only then. -/
theorem updateRepetition_recovers (hc : page.cache.Sound)
    (h : page.host.CarriesList template placeholder rendered)
    (hlist : page.listAt clause.list = (some values, page)) :
    ∃ failure copies page', page.updateRepetition clause template placeholder rendered =
        (outcome failure, copies, page') ∧
      (failure.isSome ↔ ∃ c ∈ rendered, ¬ page.host.Live c) ∧
      Renewed page page' clause template placeholder rendered copies values ∧
      Replaces page.host page'.host rendered copies
        (values.length * (page.host.preorder template).length) := by
  have hcleared := HostTree.destroyAll_clears rendered h.sound
  have hfails := HostTree.destroyAll_fails_iff h.sound h.inner
    (h.distinct.pairwise_of_forall_ne h.apart)
  have hemptied := HostTree.emptied_destroyAll rendered page.host
  rw [updateRepetition, hlist]
  dsimp only
  generalize despiteFailures HostTree.destroy rendered page.host = cleared at *
  obtain ⟨failure, t₁⟩ := cleared
  dsimp only at *
  have h₁ := h.cleared hcleared
  have hl₁ := h₁.sound.tree.linked
  obtain ⟨p, hp⟩ := Option.isSome_iff_exists.1 h.placed
  have hspared : ∀ c ∈ rendered, c ≠ HostTree.root → ¬ page.host.Below c placeholder :=
    fun c hc _ => h.aside c hc
  have hp₁ : t₁.parent? placeholder = some p := (hcleared.kept placeholder hspared).2.1.trans hp
  obtain ⟨front, back, hchildren⟩ := List.append_of_mem (h₁.sound.tree.listed hp₁)
  obtain ⟨b, rfl, hb⟩ := HostTree.exists_holds hl₁ h₁.sound.tree.acyclic h₁.live
  have hlasting := hb.lasting (fun y hy => h₁.plain y (hb.mem_labels_iff.1 hy)) page.config
  have hpout : p ∉ b.labels := fun hmem =>
    h₁.outside ((hb.mem_labels_iff.1 hmem).tail (h₁.sound.tree.listed hp₁))
  let page₁ : Page := { page with host := t₁ }
  have hc₁ : page₁.cache.Sound := hc
  have hcopyable : Copyable page₁.config (fun _ => True) b.label placeholder page₁.host :=
    ⟨h₁.sound, HostTree.live_of_parent? hp₁, fun _ => h₁.element, fun _ _ _ _ _ _ => trivial⟩
  obtain ⟨page', copies, hrender, hchildren', h'⟩ := renderItems_spec clause.item failure hlasting
    hpout values [] hc₁ hl₁ rfl rfl rfl hb rfl hchildren
  obtain ⟨hsound, haged⟩ := renderItems_aged clause.item failure hlasting hpout values [] hc₁ rfl
    hcopyable hb rfl hchildren
  rw [hrender] at hsound haged
  have hsame : ∀ y ∈ b.labels, page'.host.node? y = t₁.node? y := by
    intro y hy
    refine h'.kept y (hb.live hy) ?_
    rintro rfl
    exact hpout hy
  have hcarries := h'.carriesList h₁ hb hsame (HostTree.live_of_parent? hp₁) hsound hchildren'
  refine ⟨failure, copies, page', hrender, hfails, ⟨hcarries, fun x hx => ?_, ?_, ?_⟩, ?_⟩
  · exact hsound.tree.linked.live (p := p) (by simp [hchildren', hx])
  · refine ⟨p, front, back, hp, ?_, hchildren'⟩
    rw [← hchildren, (hcleared.kept p fun c hc hroot hbelow => ?_).2.2]
    exact h.aside c hc (hbelow.tail (h.sound.tree.listed hp))
  · exact ⟨b.map t₁.figure, ⟨b, hb.frame hsame, rfl, b.map_congr fun y hy =>
      HostTree.figure_eq_of_node?_eq (hsame y hy)⟩, h'.drawn⟩
  · refine ⟨t₁, ?_, ?_, fun c hc hlive => ?_, fun x hx => h'.new x hx x (HostTree.Below.refl _ x)⟩
    · exact (hemptied.age (HostTree.touched_refl t₁).filled).agedBy_one
    · rw [← hb.preorder hl₁, h.preorder_cleared hcleared] at haged
      exact haged
    · exact (hcleared.left c hlive).2 c hc (h.inner c hc) (HostTree.Below.refl _ c)

theorem listAt_cases (page : Page) (path : Path) :
    (∃ page₁, page.listAt path = (none, page₁)) ∨
      ∃ values, page.listAt path = (some values, page) := by
  rw [listAt]
  cases resolvePath page.state.heap page.state.scope path with
  | error e => exact .inl ⟨_, rfl⟩
  | ok value =>
    cases value with
    | array id =>
      dsimp only
      split
      · exact .inl ⟨_, rfl⟩
      · exact .inr ⟨_, rfl⟩
    | _ => exact .inl ⟨_, rfl⟩

/-- Where all copies are still there, an update does not fail. -/
theorem updateRepetition_ok (hc : page.cache.Sound)
    (h : page.host.CarriesList template placeholder rendered)
    (hlive : ∀ c ∈ rendered, page.host.Live c) :
    (page.updateRepetition clause template placeholder rendered).1 = .ok () := by
  obtain ⟨page₁, hlist⟩ | ⟨values, hlist⟩ := page.listAt_cases clause.list
  · rw [updateRepetition, hlist]
  · obtain ⟨failure, copies, page', hupdate, hfails, -⟩ := updateRepetition_recovers hc h hlist
    rw [hupdate]
    cases failure with
    | none => rfl
    | some e =>
      obtain ⟨c, hmem, hdead⟩ := hfails.1 rfl
      exact absurd (hlive c hmem) hdead

/-- The old copies stay away and the new ones are new, where slots do not get too old. -/
theorem Replaces.renewed {t₀ t : HostTree Reaction} {copies : List NodeId} {before releases : Nat}
    (h : Replaces t t' rendered copies releases) (h₀ : t₀.AgedBy before t)
    (hlive : ∀ c ∈ rendered, t₀.Live c) (hlive' : ∀ x ∈ copies, t'.Live x)
    (hfew : before + 1 + releases < UInt32.size) :
    (∀ c ∈ rendered, ¬ t'.Live c) ∧ ∀ x ∈ copies, ¬ t.Live x := by
  obtain ⟨t₁, haged₁, haged, hgone, hnew⟩ := h
  refine ⟨fun c hc => (h₀.trans haged₁).stays_dead haged (hlive c hc) (hgone c hc) hfew,
    fun x hx hold => ?_⟩
  exact haged₁.stays_dead haged hold (hnew x hx) (by omega) (hlive' x hx)

end Page

/-- A list of names: the template, the placeholder, and two copies of the template behind it. -/
def rollHistory : List (HostOperation Reaction) :=
  let list : NodeId := ⟨1, 0⟩
  let template : NodeId := ⟨2, 0⟩
  let placeholder : NodeId := ⟨3, 0⟩
  [.appendElement HostTree.root "ul" [], .appendElement list "li" [("vx-bind", "name")],
    .createPlaceholder "names", .insertAfter template placeholder, .remove template,
    .cloneNode template, .insertAfter placeholder ⟨4, 0⟩,
    .cloneNode template, .insertAfter ⟨4, 0⟩ ⟨5, 0⟩]

/-- The document with the list of names. -/
def roll : HostTree Reaction := HostTree.empty.run rollHistory

theorem rollHistory_permits : (HostTree.empty : HostTree Reaction).RunPermits rollHistory := by
  refine ⟨⟨fun p hp => ?_, nofun⟩, ⟨fun p hp => ?_, nofun⟩, ⟨nofun, nofun⟩, ⟨nofun, fun _ p c h => ?_⟩,
    ⟨nofun, nofun⟩, ⟨nofun, nofun⟩, ⟨nofun, fun _ p c h => ?_⟩, ⟨nofun, nofun⟩,
    ⟨nofun, fun _ p c h => ?_⟩, trivial⟩
  · exact Option.some.inj hp ▸ ⟨_, rfl⟩
  · exact Option.some.inj hp ▸ ⟨_, rfl⟩
  all_goals
    obtain ⟨rfl, rfl⟩ := Prod.mk.inj (Option.some.inj h)
    exact ⟨by decide, HostTree.not_below_of_children_nil rfl (by decide)⟩

theorem roll_carriesList : roll.CarriesList ⟨2, 0⟩ ⟨3, 0⟩ [⟨4, 0⟩, ⟨5, 0⟩] := by
  have hempty : ∀ c ∈ [(⟨2, 0⟩ : NodeId), ⟨4, 0⟩, ⟨5, 0⟩], roll.children c = [] := by decide +kernel
  have hnot : ∀ c ∈ [(⟨2, 0⟩ : NodeId), ⟨4, 0⟩, ⟨5, 0⟩], ∀ y, y ≠ c → ¬ roll.Below c y :=
    fun c hc y => HostTree.not_below_of_children_nil (hempty c hc)
  refine ⟨HostTree.sound_empty.run rollHistory_permits, by decide +kernel, ⟨_, rfl⟩, by decide +kernel,
    fun y hy _ => ?_, hnot _ (by decide) _ (by decide), by decide,
    fun c hc d _ hne => hnot c (List.mem_cons_of_mem _ hc) d hne.symm, by decide, fun c hc => ?_,
    fun c hc => ⟨?_, ?_⟩⟩
  · by_cases hne : y = ⟨2, 0⟩
    · rw [hne]
      exact hempty _ (by decide)
    · exact absurd hy (hnot _ (by decide) y hne)
  · exact hnot c (List.mem_cons_of_mem _ hc) _ (by rintro rfl; revert hc; decide)
  · exact hnot c (List.mem_cons_of_mem _ hc) _ (by rintro rfl; revert hc; decide)
  · exact hnot _ (by decide) c (by rintro rfl; revert hc; decide)

/-- One copy of the list of names is destroyed, and the other one is taken out. -/
def rollBroken : List (HostOperation Reaction) := [.destroy ⟨4, 0⟩, .remove ⟨5, 0⟩]

/-- The page with the broken list of names, and three names in its state. -/
def rollPage : Page :=
  let (names, h) := Heap.empty.addArray [.text "Ann", .text "Bob", .text "Cy"]
  let (root, h) := h.addObject (.ofList [("names", .array names)])
  ⟨roll.run rollBroken, .standard, ⟨.wrap h root, ⟨.empty, .empty 10⟩⟩, .empty⟩

/-- The binding of the list of names. -/
def rollBinding : Binding :=
  ⟨0, ⟨2, 0⟩, "name in names", .repetition ⟨"name", ⟨"names", []⟩⟩ ⟨2, 0⟩ ⟨3, 0⟩ [⟨4, 0⟩, ⟨5, 0⟩],
    some ["names"]⟩

end ReactiveTemplate
