import ReactiveTemplate.Proofs.Document.Lists
import ReactiveTemplate.Proofs.Engine.Abreast
import ReactiveTemplate.Proofs.Engine.Registration

/-!
# What values depend on

An expression declares the paths that it reads, and a list those that its template reads besides the
item. Values, and what the update of a list does to the document, depend on nothing else.

* `Page.registerRepetition_declares`: the declared paths cover what the template asks for.
* `Tracked.AgreeOn`: two states that agree on some paths.
* `depends_on_declared_paths`: expressions and lists depend on what they declare.
-/

namespace ReactiveTemplate

/-- A copy of a node and a new placeholder in its place make up a list without copies. -/
theorem HostTree.carriesList_of_made {α : Type} {t t₁ t₂ t₃ : HostTree α}
    {node template placeholder p : NodeId} {made : Node α} (hs : t.Sound) (hlive : t.Live node)
    (hclone : t.cloneNode node = (.ok template, t₁)) (hcloned : t.Cloned t₁ node template)
    (hbeside : Beside t₁.Live t₁ t₂) (hmade : t₂.node? placeholder = some made)
    (hblank : made.kind ≠ .text ∧ made.children = []) (hp : t₂.parent? node = some p)
    (hswapped : t₂.Swapped t₃ node [placeholder]) (hparent : t₃.parent? placeholder = some p)
    (habove : ¬ t₂.Below placeholder p) (hnew : ¬ t₁.Live placeholder)
    (hkind : (t.figure node).kind ≠ .text) (hplain : t.PlainTexts node) :
    t₃.CarriesList template placeholder [] := by
  have hl₁ := hcloned.beside.sound.tree.linked
  obtain ⟨b, hlabel, hb⟩ := exists_holds hl₁ hcloned.beside.sound.tree.acyclic hcloned.live
  have hin : ∀ {y}, t₂.Below template y → y ∈ b.labels := fun hy =>
    (hb.frame fun y hy => hbeside.same y (hb.live hy)).mem_labels_iff.2 (hlabel ▸ hy)
  have hguarded : Guarded t.Live t₂ := ((guarded_live hs).beside hcloned.beside).beside
    ⟨hbeside.sound, fun y hy => hbeside.same y (hy.of_node? (hcloned.beside.same y hy))⟩
  have hempty := children_of_node? hmade
  rw [hblank.2] at hempty
  have hfigure : ∀ {y}, t₁.Live y → t₃.figure y = t₁.figure y := fun hy => by
    rw [figure_eq_of_content_eq (hswapped.content _), figure_eq_of_node?_eq (hbeside.same _ hy)]
  have htemplate₂ : t₂.Live template := hcloned.live.of_node? (hbeside.same _ hcloned.live)
  refine .of_nil hswapped.sound (by rw [hparent]; rfl)
    (htemplate₂.of_content (hswapped.content template)) ?_ (fun y hy htext => ?_) fun hbelow => ?_
  · rw [hfigure hcloned.live, hcloned.figure]
    exact hkind
  · rcases hswapped.below hy with hy | ⟨x, hx, -, hxy⟩
    · have hmem := hin hy
      have hy₁ := hb.live hmem
      rw [hfigure hy₁] at htext
      rw [hswapped.children, children_eq_of_node?_eq (hbeside.same y hy₁),
        hplain.cloneNode hs hlive hclone y (hlabel ▸ hb.mem_labels_iff.1 hmem) htext]
      rfl
    · rw [List.mem_singleton.1 hx] at hxy
      by_cases hne : y = placeholder
      · rw [hne, figure_eq_of_content_eq (hswapped.content placeholder), figure_of_node? hmade] at htext
        exact absurd htext hblank.1
      · exact absurd hxy (not_below_of_children_nil hempty hne)
  · have hne : placeholder ≠ template := fun heq => hnew (heq ▸ hcloned.live)
    obtain ⟨q, hq, hbelow⟩ := hswapped.sound.tree.linked.below_parent hbelow hne
    obtain rfl : p = q := Option.some.inj (hparent.symm.trans hq)
    rcases hswapped.below hbelow with hbelow | ⟨x, hx, -, hxp⟩
    · exact hcloned.new (hguarded.of_below hbeside.sound.tree.linked hbelow
        (hguarded.above node p hlive hp))
    · exact habove (List.mem_singleton.1 hx ▸ hxp)

namespace Page

variable {page page' : Page}

/-! ## Declared paths -/

/-- What making the binding of a list leaves behind: it declares the path of the list and all that
    its template asks for besides the item. The document carries the list. -/
structure Declares (page page' : Page) (node : NodeId) (draft : Draft) (clause : ForClause)
    (template placeholder : NodeId) : Prop where
  directive : draft.directive = .repetition clause template placeholder []
  calm : page.Calm page'
  sound : page'.host.Sound
  live : page'.host.Live template ∧ page'.host.Live placeholder
  kind : (page'.host.figure template).kind ≠ .text
  grammatical : clause.list.Grammatical
  list : clause.list.dotted ∈ draft.reads
  asks : page'.host.AsksOnly page.config (fun source =>
    (CompiledExpression.compile source).dependenciesOutside clause.item ⊆ draft.reads) template
  carries : page.host.PlainTexts node → page'.host.CarriesList template placeholder []

theorem registerRepetition_declares {node : NodeId} {text source : String} {draft : Draft}
    (hs : page.host.Sound) (hc : page.cache.Sound)
    (hnode : (page.host.figure node).source? (page.attributeName .repetition) = some source)
    (hregister : page.registerRepetition node text = (.ok (some draft), page')) :
    ∃ clause template placeholder, Declares page page' node draft clause template placeholder := by
  cases hparse : parseForClause (Text.trim text) with
  | error e =>
    rw [registerRepetition_malformed hparse, Prod.mk.injEq, Except.ok.injEq] at hregister
    cases hregister.1
  | ok clause =>
    have hlive := HostTree.live_of_source? hnode
    obtain ⟨template, t₁, hclone, hcloned⟩ := HostTree.cloneNode_cloned hs hlive
    obtain ⟨placeholder, t₂, hcreate, hbeside, -, hnew, hplaceholder⟩ :=
      HostTree.createPlaceholder_beside hcloned.beside.sound
        (({ page with host := t₁ } : Page).repetitionLabel clause)
    have hsame := hbeside.same template hcloned.live
    have hnode₂ : t₂.Live node :=
      (hcloned.beside.keepsPlaces.trans hbeside.keepsPlaces).live node hlive
    have hkind : (t₂.figure template).kind ≠ .text := by
      rw [HostTree.figure_eq_of_node?_eq hsame, hcloned.figure]
      exact Figure.kind_ne_text_of_source? hnode
    cases hp : t₂.parent? node with
    | none =>
      have hloose := HostTree.replace_loose hnode₂ hp placeholder
      rw [registerRepetition_failed hparse hclone hcreate hloose] at hregister
      cases congrArg Prod.fst hregister
    | some p =>
      have hroot : placeholder ≠ HostTree.root := fun heq =>
        hnew (heq ▸ hcloned.beside.sound.tree.linked.rooted)
      have habove : ¬ t₂.Below placeholder p := by
        refine HostTree.not_below_of_children_nil (HostTree.children_of_node? hplaceholder) ?_
        rintro rfl
        have hmem := hbeside.sound.tree.listed hp
        rw [HostTree.children_of_node? hplaceholder] at hmem
        cases hmem
      obtain ⟨t₃, hreplace, hswapped, hparents⟩ := HostTree.replace_swaps hbeside.sound hp
        ⟨_, hplaceholder⟩ (HostTree.parent?_of_node? hplaceholder) hroot habove
      have hcontent := hswapped.content template
      have hlive₃ : t₃.Live template := (hbeside.keepsPlaces.live _ hcloned.live).of_content hcontent
      obtain ⟨b, hlabel, hb⟩ := HostTree.exists_holds hswapped.sound.tree.linked
        hswapped.sound.tree.acyclic hlive₃
      have hlive₄ : t₃.Live placeholder :=
        HostTree.Live.of_content ⟨_, hplaceholder⟩ (hswapped.content placeholder)
      let page₃ : Page := { page with host := t₃ }
      have hcache₃ : page₃.cache.Sound := hc
      have hlinked₃ : page₃.host.Linked := hswapped.sound.tree.linked
      obtain ⟨reads, page₄, hreads, hcalm, hhost, hcovers⟩ :=
        templateReads_spec clause.item hcache₃ hlinked₃ ⟨b, hb, hlabel, rfl⟩
      rw [registerRepetition_made hparse hclone hcreate hreplace hreads] at hregister
      obtain ⟨hdraft, rfl⟩ := Prod.mk.inj hregister
      obtain rfl := Option.some.inj (Except.ok.inj hdraft)
      refine ⟨clause, template, placeholder, rfl, hcalm.afterHost, hhost ▸ hswapped.sound,
        hhost ▸ ⟨hlive₃, hlive₄⟩, ?_, Path.grammatical_of_parseForClause hparse,
        List.mem_eraseDups.2 List.mem_cons_self, ?_, fun hplain => ?_⟩
      · rw [hhost, HostTree.figure_eq_of_content_eq hcontent]
        exact hkind
      · rw [hhost]
        intro y hbelow kind hkind source hsource path hpath
        refine List.mem_eraseDups.2 (List.mem_cons_of_mem _ ?_)
        refine hcovers (t₃.figure y) ?_ kind hkind source hsource hpath
        rw [Branch.labels_map]
        exact List.mem_map_of_mem (hb.mem_labels_iff.2 (hlabel ▸ hbelow))
      · have hne : placeholder ≠ node := by
          rintro rfl
          exact hnew ((hcloned.beside.keepsPlaces).live _ hlive)
        have hparent : t₃.parent? placeholder = some p := by
          rw [hparents, if_neg hne, if_pos rfl]
        rw [hhost]
        exact HostTree.carriesList_of_made hs hlive hclone hcloned hbeside hplaceholder
          ⟨by rintro ⟨⟩, rfl⟩ hp hswapped hparent habove hnew
          (Figure.kind_ne_text_of_source? hnode) hplain

end Page

/-! ## What values depend on -/

/-- Two states agree on some dotted paths: a path that is written so reads the same in both, and so
    does everything below. -/
def Tracked.AgreeOn (s s' : State) (reads : List String) : Prop :=
  ∀ p : Path, p.Grammatical → p.dotted ∈ reads → ReadsAlike s.heap s'.heap s.scope s'.scope p

/-- The value of an expression depends on its declared paths alone, and for an item of a list on the
    item and the declared paths outside of it. What the update of a list does to the document
    depends on the paths that were declared when the binding was made. -/
theorem depends_on_declared_paths :
    (∀ source h scope scope', let e := CompiledExpression.compile source
      (∀ p : Path, p.Grammatical → p.dotted ∈ e.dependencies →
        resolvePath h scope p = resolvePath h scope' p) →
      e.run h scope = e.run h scope') ∧
    (∀ source h item value scope scope', let e := CompiledExpression.compile source
      (∀ p : Path, p.Grammatical → p.dotted ∈ e.dependenciesOutside item →
        resolvePath h scope p = resolvePath h scope' p) →
      e.run h (.item item value scope) = e.run h (.item item value scope')) ∧
    ∀ (made made' : Page) node text source draft, made.host.Sound → made.cache.Sound →
      (made.host.figure node).source? (made.attributeName .repetition) = some source →
      made.registerRepetition node text = (.ok (some draft), made') →
      ∃ clause template placeholder, draft.directive = .repetition clause template placeholder [] ∧
        ∀ (page page' : Page) rendered, page.config = made.config → page'.config = made.config →
          page.cache.Sound → page'.cache.Sound → page'.host = page.host → page.host.Sound →
          made'.host.Fixed page.host template → page.host.Live placeholder →
          (∀ c ∈ rendered, ¬ page.host.Below c placeholder) →
          page.state.AgreeOn page'.state draft.reads →
          let r := page.updateRepetition clause template placeholder rendered
          let r' := page'.updateRepetition clause template placeholder rendered
          r'.1 = r.1 ∧ r'.2.1 = r.2.1 ∧ r'.2.2.host = r.2.2.host := by
  refine ⟨fun source h scope scope' hpaths => ?_, fun source h item value scope scope' hpaths => ?_,
    fun made made' node text source draft hs hc hnode hregister => ?_⟩
  · refine (CompiledExpression.run_of_readsAlike fun p hp => .of_resolvePath ?_).outcome
    exact hpaths p (CompiledExpression.grammatical source p hp) (List.mem_map_of_mem hp)
  · refine (CompiledExpression.run_item_of_readsAlike (Heap.AgreeBelow.refl h value)
      fun p hp hroot => .of_resolvePath ?_).outcome
    refine hpaths p (CompiledExpression.grammatical source p hp) (List.mem_map_of_mem ?_)
    exact List.mem_filter.2 ⟨hp, by simpa using hroot⟩
  · obtain ⟨clause, template, placeholder, hd⟩ :=
      Page.registerRepetition_declares hs hc hnode hregister
    refine ⟨clause, template, placeholder, hd.directive, fun page page' rendered hconfig hconfig'
      hcache hcache' hhost hsound hfixed hplaceholder hout hagree => ?_⟩
    have habreast : Page.Abreast page page' page page' := ⟨.refl hcache, .refl hcache', hhost⟩
    have hkind : (page.host.figure template).kind ≠ .text := by
      rw [HostTree.figure_eq_of_content_eq (hfixed template (HostTree.Below.refl _ _)).1]
      exact hd.kind
    have hasks := hd.asks.fixed hfixed
    rw [← hconfig] at hasks
    obtain ⟨houtcome, hcopies, hafter⟩ := Page.updateRepetition_abreast
      (hconfig'.trans hconfig.symm) habreast hsound hkind hasks
      hplaceholder hout (hagree _ hd.grammatical hd.list) fun source hsource p hp hroot => by
        refine hagree p (CompiledExpression.grammatical source p hp) (hsource ?_)
        exact List.mem_map_of_mem (List.mem_filter.2 ⟨hp, by simpa using hroot⟩)
    exact ⟨houtcome, hcopies, hafter.host⟩

/-- A page with a list of names. -/
def rosterPage : HostTree Reaction :=
  let zone := (HostTree.empty.appendElement HostTree.root "div" [("vx-zone", "")]).2
  (zone.appendElement ⟨1, 0⟩ "li"
    [("vx-for", "name in names"), ("vx-bind", "title + ' ' + name")]).2

/-- Two objects with the same names and the same title, and a heap that holds them. -/
def rosters : ObjectId × ObjectId × Heap :=
  let (names, h) := Heap.empty.addArray [.text "Ann", .text "Bob"]
  let (left, h) := h.addObject
    (.ofList [("names", .array names), ("title", .text "Team"), ("count", .count 1)])
  let (right, h) := h.addObject
    (.ofList [("names", .array names), ("title", .text "Team"), ("count", .count 2)])
  (left, right, h)

/-- The page over the state that is one of the objects. -/
def rosterOf (root : ObjectId) : Page :=
  ⟨rosterPage, .standard, ⟨.wrap rosters.2.2 root, ⟨.empty, .empty 10⟩⟩, .empty⟩

/-- The objects agree on the names and on the title. -/
theorem rosters_agree (p : Path) (hp : p.Grammatical) (hread : p.dotted ∈ ["names", "title"]) :
    resolvePath rosters.2.2 (.object rosters.1) p =
      resolvePath rosters.2.2 (.object rosters.2.1) p := by
  have hroot : p.root = "names" ∨ p.root = "title" := by
    have hsegments := p.pathSegments_dotted hp
    rcases List.mem_pair.1 hread with heq | heq
    · rw [heq, show pathSegments "names" = ["names"] by decide +kernel] at hsegments
      exact .inl (List.cons.inj hsegments).1.symm
    · rw [heq, show pathSegments "title" = ["title"] by decide +kernel] at hsegments
      exact .inr (List.cons.inj hsegments).1.symm
  have hleft : (Scope.object rosters.1).lookup rosters.2.2 "names" = .ok (some (.array ⟨0⟩)) ∧
      (Scope.object rosters.1).lookup rosters.2.2 "title" = .ok (some (.text "Team")) := ⟨rfl, rfl⟩
  have hright : (Scope.object rosters.2.1).lookup rosters.2.2 "names" = .ok (some (.array ⟨0⟩)) ∧
      (Scope.object rosters.2.1).lookup rosters.2.2 "title" = .ok (some (.text "Team")) := ⟨rfl, rfl⟩
  rw [resolvePath, resolvePath]
  rcases hroot with heq | heq
  · rw [heq, hleft.1, hright.1]
  · rw [heq, hleft.2, hright.2]

/-- The same title, the same line for a name, and the same list, whatever the counts are. -/
theorem roster_depends_on_declared_paths :
    let h := rosters.2.2
    let left := Scope.object rosters.1
    let right := Scope.object rosters.2.1
    let title := CompiledExpression.compile "title"
    let line := CompiledExpression.compile "title + ' ' + name"
    let made := rosterOf rosters.1
    title.dependencies = ["title"] ∧ title.run h left = title.run h right ∧
    line.dependenciesOutside "name" = ["title"] ∧
    line.run h (.item "name" (.text "Ann") left) =
      line.run h (.item "name" (.text "Ann") right) ∧
    ∃ draft made', made.registerRepetition ⟨2, 0⟩ "name in names" = (.ok (some draft), made') ∧
      draft.reads = ["names", "title"] ∧
      ∃ clause template placeholder, draft.directive = .repetition clause template placeholder [] ∧
        let other : Page := { made' with state := (rosterOf rosters.2.1).state }
        let r := made'.updateRepetition clause template placeholder []
        let r' := other.updateRepetition clause template placeholder []
        r'.1 = r.1 ∧ r'.2.1 = r.2.1 ∧ r'.2.2.host = r.2.2.host := by
  intro h left right title line made
  have htitle : title.dependencies = ["title"] := by decide +kernel
  have hline : line.dependenciesOutside "name" = ["title"] := by decide +kernel
  have hagree : ∀ p : Path, p.Grammatical → p.dotted ∈ ["names", "title"] →
      resolvePath h left p = resolvePath h right p := rosters_agree
  have hmore : ∀ {path}, path ∈ ["title"] → path ∈ ["names", "title"] :=
    fun hpath => List.mem_cons_of_mem _ hpath
  obtain ⟨hvalue, hitem, hlist⟩ := depends_on_declared_paths
  refine ⟨htitle, hvalue "title" h left right fun p hp hread => ?_, hline,
    hitem "title + ' ' + name" h "name" (.text "Ann") left right fun p hp hread => ?_, ?_⟩
  · exact hagree p hp (hmore (htitle ▸ hread))
  · exact hagree p hp (hmore (hline ▸ hread))
  have hsound : made.host.Sound := (HostTree.sound_empty.append ⟨_, rfl⟩ rfl).append ⟨_, rfl⟩ rfl
  have hcache : made.cache.Sound := ExpressionCache.sound_empty
  have hnode : (made.host.figure ⟨2, 0⟩).source? (made.attributeName .repetition) =
      some "name in names" := by decide +kernel
  have hreads : (made.registerRepetition ⟨2, 0⟩ "name in names").1.toOption.bind
      (Option.map Draft.reads) = some ["names", "title"] := by decide +kernel
  cases hregister : made.registerRepetition ⟨2, 0⟩ "name in names" with
  | mk outcome made' =>
    rw [hregister] at hreads
    obtain ⟨draft?, houtcome, hdraft⟩ := Option.bind_eq_some_iff.1 hreads
    obtain ⟨draft, rfl, hpaths⟩ := Option.map_eq_some_iff.1 hdraft
    obtain rfl : outcome = .ok (some draft) := by
      cases outcome with
      | error e => cases houtcome
      | ok draft? => exact congrArg Except.ok (Option.some.inj houtcome)
    refine ⟨draft, made', rfl, hpaths, ?_⟩
    obtain ⟨clause, template, placeholder, hd⟩ :=
      Page.registerRepetition_declares hsound hcache hnode hregister
    obtain ⟨clause', template', placeholder', hdirective, hupdate⟩ :=
      hlist made made' ⟨2, 0⟩ "name in names" _ draft hsound hcache hnode hregister
    rw [hd.directive] at hdirective
    cases hdirective
    have hheap : made'.state.heap = h := hd.calm.heap
    have hscope : made'.state.scope = left := hd.calm.scope
    refine ⟨clause, template, placeholder, hd.directive, hupdate made' _ [] hd.calm.config
      hd.calm.config hd.calm.cache hd.calm.cache rfl hd.sound (.refl _ _) hd.live.2 nofun ?_⟩
    intro p hp hread
    rw [hpaths] at hread
    have hsame := hagree p hp hread
    rw [← hscope] at hsame
    rw [hheap]
    exact .of_resolvePath hsame

end ReactiveTemplate
