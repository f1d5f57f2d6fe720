import Mathlib.Data.List.Flatten
import Mathlib.Data.List.ProdSigma
import ReactiveTemplate.Engine.Scan
import ReactiveTemplate.Proofs.Engine.Layout

/-!
# The declarations of a zone

What is declared in a document: no attribute counts twice, a repeated element is only repeated,
and nothing is declared inside a repeated element or inside one that shows a text.

* `HostTree.Apart`: documents whose zones and texts are not nested.
* `Plan`: lists of declarations that bindings can be made for.
* `HostTree.Holds.closest`: the search for a carrying element above a node finds one.
* `Page.mem_declaredOn`, `Page.declarations_eq`: the declarations of one kind on some nodes, and all
  those in a subtree.
* `Page.declarations_of_holds`, `Page.declarations_spec`: what is known of the declarations in a
  subtree, and in a further zone.
-/

namespace ReactiveTemplate

/-- No zone lies inside another one, and nothing is declared inside an element that shows a
    text. -/
structure HostTree.Apart (config : Config) (t₀ : HostTree Reaction) : Prop where
  zones : ∀ zones, t₀.queryAll config.zoneSelector = .ok zones → ∀ x ∈ zones, ∀ y ∈ zones,
    t₀.Below x y → x = y
  texts : ∀ x y kind, (t₀.figure x).source? (config.attributeName .bind) ≠ none →
    (t₀.figure y).source? (config.attributeName kind) ≠ none → t₀.Below x y → y = x

/-- What asked for a binding. -/
def Binding.declaration (b : Binding) : Declaration := ⟨b.kind, b.node, b.source⟩

/-- Declarations that bindings can be made for in their order. -/
structure Plan (config : Config) (t₀ : HostTree Reaction) (ds : List Declaration) : Prop where
  source : ∀ d ∈ ds, (t₀.figure d.node).source? (config.attributeName d.kind) = some d.text
  once : (ds.map fun d => (d.node, d.kind)).Nodup
  alone : ∀ d ∈ ds, ∀ d' ∈ ds, d.node = d'.node → d.kind = .repetition → d'.kind = .repetition
  hooked : ∀ d ∈ ds, ∃ p, d.node ∈ t₀.children p
  apart : ∀ d ∈ ds, ∀ d' ∈ ds, d.kind = .bind → t₀.Below d.node d'.node → d'.node = d.node
  /-- Nothing is declared inside a repeated element. -/
  whole : ∀ d ∈ ds, ∀ d' ∈ ds, d.kind = .repetition → t₀.Below d.node d'.node → d'.node = d.node

variable {config : Config} {t₀ t : HostTree Reaction} {ds ds' : List Declaration}
  {bs : List Binding} {x y : NodeId}

theorem Plan.sublist (h : Plan config t₀ ds) (hsub : ds'.Sublist ds) : Plan config t₀ ds' where
  source d hd := h.source d (hsub.subset hd)
  once := h.once.sublist (hsub.map _)
  alone d hd d' hd' := h.alone d (hsub.subset hd) d' (hsub.subset hd')
  hooked d hd := h.hooked d (hsub.subset hd)
  apart d hd d' hd' := h.apart d (hsub.subset hd) d' (hsub.subset hd')
  whole d hd d' hd' := h.whole d (hsub.subset hd) d' (hsub.subset hd')

/-- Bindings made for some of the declarations, in their order. -/
theorem Plan.declared (h : Plan config t₀ ds) (hbs : (bs.map Binding.declaration).Sublist ds) :
    Declared config t₀ bs := by
  have hplan := h.sublist hbs
  have hmem : ∀ b ∈ bs, b.declaration ∈ bs.map Binding.declaration := fun b hb =>
    List.mem_map_of_mem hb
  refine ⟨fun b hb => hplan.source _ (hmem b hb), ?_, fun b hb c hc => ?_, fun b hb _ => ?_,
    fun b hb c hc => ?_⟩
  · have honce := hplan.once
    rw [List.map_map] at honce
    exact honce
  · exact hplan.alone _ (hmem b hb) _ (hmem c hc)
  · exact hplan.hooked _ (hmem b hb)
  · exact hplan.apart _ (hmem b hb) _ (hmem c hc)

/-! ## Elements above a node -/

namespace HostTree

variable {α : Type} {s : HostTree α} {b : Branch NodeId} {name : String}

theorem closestWithin_succ (s : HostTree α) (name : String) (fuel : Nat) {x p : NodeId}
    (hp : s.parent? x = some p) :
    s.closestWithin name (fuel + 1) x =
      if (s.attribute? p name).isSome then some p else s.closestWithin name fuel p := by
  rw [closestWithin, hp]

theorem closestWithin_add (fuel more : Nat) :
    ∀ {x : NodeId}, (s.closestWithin name fuel x).isSome →
      (s.closestWithin name (fuel + more) x).isSome := by
  induction fuel with
  | zero => exact fun h => by cases h
  | succ fuel ih =>
    intro x h
    rw [closestWithin] at h
    cases hp : s.parent? x with
    | none =>
      rw [hp] at h
      cases h
    | some p =>
      rw [hp] at h
      rw [Nat.succ_add_eq_add_succ, Nat.add_succ, closestWithin_succ s name _ hp]
      dsimp only at h
      split at h
      · next hfound => rw [if_pos hfound, Option.isSome_some]
      · next hmiss =>
        rw [if_neg hmiss]
        exact ih h

/-- A search that finds something from the top of a subtree does so from all nodes in it, with
    a few more steps. -/
theorem Holds.closest_above (hl : s.Linked) (h : s.Holds b) (hx : x ∈ b.labels) (fuel : Nat)
    (htop : (s.closestWithin name fuel b.label).isSome) :
    (s.closestWithin name (fuel + b.labels.length) x).isSome := by
  induction h generalizing fuel with
  | @node id bs _ hchildren hbelow ih =>
    rw [Branch.labels_node] at hx
    rcases List.mem_cons.1 hx with rfl | hx
    · exact closestWithin_add _ _ htop
    · obtain ⟨c, hc, hx⟩ := List.mem_flatMap.1 hx
      have hp : s.parent? c.label = some id := hl.child (by
        rw [hchildren]
        exact List.mem_map_of_mem hc)
      have hfound : (s.closestWithin name (fuel + 1) c.label).isSome := by
        rw [closestWithin_succ s name fuel hp]
        split
        · rfl
        · exact htop
      have hlt := Branch.length_labels_lt (b := id) hc
      have hsum : fuel + (Branch.node id bs).labels.length =
          fuel + 1 + c.labels.length + ((Branch.node id bs).labels.length - 1 - c.labels.length) := by
        omega
      rw [hsum]
      exact closestWithin_add _ _ (ih c hc hx (fuel + 1) hfound)

/-- Inside a carrying element the search above a node finds one. -/
theorem Holds.closest (hl : s.Linked) (h : s.Holds b) (hx : x ∈ b.labels) (hne : x ≠ b.label)
    (hcarries : (s.attribute? b.label name).isSome) : (s.closestAncestor? x name).isSome := by
  have hsize := h.length_le hl
  cases h with
  | @node id bs _ hchildren hbelow =>
    rw [Branch.labels_node] at hx
    obtain ⟨c, hc, hx⟩ := List.mem_flatMap.1 ((List.mem_cons.1 hx).resolve_left hne)
    have hp : s.parent? c.label = some id := hl.child (by
      rw [hchildren]
      exact List.mem_map_of_mem hc)
    rw [Branch.label] at hcarries
    have hfound : (s.closestWithin name 1 c.label).isSome := by
      rw [closestWithin_succ s name 0 hp, if_pos hcarries, Option.isSome_some]
    have hlt := Branch.length_labels_lt (b := id) hc
    have hsum : s.slots.size = 1 + c.labels.length + (s.slots.size - 1 - c.labels.length) := by
      omega
    rw [closestAncestor?, hsum]
    exact closestWithin_add _ _ ((hbelow c hc).closest_above hl hx 1 hfound)

/-- Below a node with a parent every node has one. -/
theorem Below.hooked {p : NodeId} (hp : x ∈ s.children p) (hbelow : s.Below x y) :
    ∃ q, y ∈ s.children q := by
  rcases Relation.ReflTransGen.cases_tail hbelow with rfl | ⟨q, -, hq⟩
  · exact ⟨p, hp⟩
  · exact ⟨q, hq⟩

end HostTree

/-! ## Subtrees without bindings -/

theorem standing_of_unfilled (hfresh : ∀ b ∈ bs, b.filled? = none) (hx : t₀.Live x) :
    Standing t₀ bs x := by
  refine ⟨hx, ?_⟩
  rintro y ⟨b, hb, -, hne⟩
  exact absurd (hfresh b hb) hne

/-- A subtree stays while there are no bindings inside. -/
theorem Kept.holds (h : Kept t₀ bs t) (ht : t₀.Tree) (hfresh : ∀ b ∈ bs, b.filled? = none)
    {b : Branch NodeId} (hb : t₀.Holds b)
    (hout : ∀ c ∈ bs, t₀.Below b.label c.node → c.node = b.label) : t.Holds b := by
  have hstanding : ∀ x ∈ b.labels, Standing t₀ bs x := fun x hx =>
    standing_of_unfilled hfresh (hb.live hx)
  refine hb.of_children (fun x hx => h.stays x (hstanding x hx)) fun x hx => ?_
  have hunfilled : ¬ Filled bs x := by
    rintro ⟨c, hc, -, hne⟩
    exact hne (hfresh c hc)
  rw [h.slots x (hstanding x hx) hunfilled]
  have hself : ∀ y ∈ t₀.children x, occupants bs y = [y] := by
    intro y hy
    refine occupants_of_not_mem fun c hc hnode => ?_
    have hbelow : t₀.Below b.label x := hb.mem_labels_iff.1 hx
    have htop := hout c hc (hnode ▸ hbelow.tail hy)
    rw [hnode] at htop
    rw [htop] at hy
    exact absurd hbelow (ht.acyclic.not_below hy)
  calc (t₀.children x).flatMap (occupants bs)
      = (t₀.children x).flatMap fun y => [y] := List.flatMap_congr hself
    _ = t₀.children x := by simp

/-! ## Declarations -/

theorem Plan.append (h : Plan config t₀ ds) (h' : Plan config t₀ ds')
    (hapart : ∀ d ∈ ds, ∀ d' ∈ ds', ¬ t₀.Below d.node d'.node ∧ ¬ t₀.Below d'.node d.node) :
    Plan config t₀ (ds ++ ds') := by
  have hcross : ∀ d ∈ ds ++ ds', ∀ d' ∈ ds ++ ds', t₀.Below d.node d'.node →
      (d ∈ ds ∧ d' ∈ ds) ∨ d ∈ ds' ∧ d' ∈ ds' := by
    intro d hd d' hd' hbelow
    rcases List.mem_append.1 hd with hd | hd <;> rcases List.mem_append.1 hd' with hd' | hd'
    · exact .inl ⟨hd, hd'⟩
    · exact absurd hbelow (hapart d hd d' hd').1
    · exact absurd hbelow (hapart d' hd' d hd).2
    · exact .inr ⟨hd, hd'⟩
  have hbelow_of_eq : ∀ {d d' : Declaration}, d.node = d'.node → t₀.Below d.node d'.node := by
    intro d d' heq
    rw [heq]
    exact HostTree.Below.refl _ _
  refine ⟨fun d hd => ?_, ?_, fun d hd d' hd' heq => ?_, fun d hd => ?_,
    fun d hd d' hd' hkind hbelow => ?_, fun d hd d' hd' hkind hbelow => ?_⟩
  · exact (List.mem_append.1 hd).elim (h.source d) (h'.source d)
  · rw [List.map_append, List.nodup_append]
    refine ⟨h.once, h'.once, ?_⟩
    rintro _ hpair _ hpair' heq
    obtain ⟨d, hd, rfl⟩ := List.mem_map.1 hpair
    obtain ⟨d', hd', rfl⟩ := List.mem_map.1 hpair'
    exact (hapart d hd d' hd').1 (hbelow_of_eq (Prod.mk.inj heq).1)
  · rcases hcross d hd d' hd' (hbelow_of_eq heq) with ⟨hd, hd'⟩ | ⟨hd, hd'⟩
    · exact h.alone d hd d' hd' heq
    · exact h'.alone d hd d' hd' heq
  · exact (List.mem_append.1 hd).elim (h.hooked d) (h'.hooked d)
  · rcases hcross d hd d' hd' hbelow with ⟨hd, hd'⟩ | ⟨hd, hd'⟩
    · exact h.apart d hd d' hd' hkind hbelow
    · exact h'.apart d hd d' hd' hkind hbelow
  · rcases hcross d hd d' hd' hbelow with ⟨hd, hd'⟩ | ⟨hd, hd'⟩
    · exact h.whole d hd d' hd' hkind hbelow
    · exact h'.whole d hd d' hd' hkind hbelow

theorem mapM_ok {α β ε : Type} {f : α → Except ε β} {g : α → β} {xs : List α}
    (h : ∀ x ∈ xs, f x = .ok (g x)) : xs.mapM f = .ok (xs.map g) := by
  induction xs with
  | nil => rfl
  | cons x xs ih =>
    rw [List.mapM_cons, h x (by simp), ih fun y hy => h y (List.mem_cons_of_mem _ hy)]
    rfl

namespace Page

variable {page : Page} {d : Declaration} {kind : DirectiveKind}

/-- What is known of an attribute that counts. -/
theorem declaration?_eq_some_iff :
    page.declaration? kind x = some d ↔
      d.kind = kind ∧ d.node = x ∧
        page.host.attribute? x (page.attributeName kind) = some d.text ∧
        page.host.closestAncestor? x (page.attributeName .repetition) = none ∧
        (kind = .repetition ∨ page.host.attribute? x (page.attributeName .repetition) = none) := by
  rw [declaration?]
  split
  · next hclosest => simp [Option.isSome_iff_ne_none.1 hclosest]
  · next hclosest =>
    have hnone : page.host.closestAncestor? x (page.attributeName .repetition) = none := by
      simpa using hclosest
    split
    · next hrepeated =>
      simp [hrepeated.1, Option.isSome_iff_ne_none.1 hrepeated.2]
    · next hrepeated =>
      rw [not_and_or, not_ne_iff, Option.not_isSome_iff_eq_none] at hrepeated
      obtain ⟨kind', node, text⟩ := d
      simp only [hnone, hrepeated, Option.map_eq_some_iff, Declaration.mk.injEq, and_true]
      constructor
      · rintro ⟨_, htext, rfl, rfl, rfl⟩
        exact ⟨rfl, rfl, htext⟩
      · rintro ⟨rfl, rfl, htext⟩
        exact ⟨text, htext, rfl, rfl, rfl⟩

/-- The declarations of one kind on some nodes. -/
def declaredOn (page : Page) (nodes : List NodeId) (kind : DirectiveKind) : List Declaration :=
  (nodes.filter fun x => ((page.host.figure x).source? (page.attributeName kind)).isSome).filterMap
    (page.declaration? kind)

theorem mem_declaredOn {nodes : List NodeId} :
    d ∈ page.declaredOn nodes kind ↔
      d.kind = kind ∧ d.node ∈ nodes ∧
        (page.host.figure d.node).source? (page.attributeName kind) = some d.text ∧
        page.host.closestAncestor? d.node (page.attributeName .repetition) = none ∧
        (kind = .repetition ∨
          page.host.attribute? d.node (page.attributeName .repetition) = none) := by
  rw [declaredOn, List.mem_filterMap]
  constructor
  · rintro ⟨x, hx, hfound⟩
    obtain ⟨hmem, hsome⟩ := List.mem_filter.1 hx
    obtain ⟨hkind, rfl, htext, hclosest, halone⟩ := declaration?_eq_some_iff.1 hfound
    obtain ⟨text, hsource⟩ := Option.isSome_iff_exists.1 hsome
    have hattribute := HostTree.attribute?_of_source? hsource
    rw [htext] at hattribute
    exact ⟨hkind, hmem, hattribute ▸ hsource, hclosest, halone⟩
  · rintro ⟨hkind, hmem, hsource, hclosest, halone⟩
    refine ⟨d.node, List.mem_filter.2 ⟨hmem, by rw [hsource, Option.isSome_some]⟩, ?_⟩
    exact declaration?_eq_some_iff.2
      ⟨hkind, rfl, HostTree.attribute?_of_source? hsource, hclosest, halone⟩

/-- The declarations of one kind stand in the order of their nodes. -/
theorem declaredOn_sublist (page : Page) (nodes : List NodeId) (kind : DirectiveKind) :
    ((page.declaredOn nodes kind).map fun d => (d.kind, d.node)).Sublist (nodes.map (kind, ·)) := by
  have hpair : ∀ x, (page.declaration? kind x).map (fun d => (d.kind, d.node)) =
      (page.declaration? kind x).map fun _ => (kind, x) := by
    intro x
    refine Option.map_congr fun d hd => ?_
    obtain ⟨hkind, hnode, -⟩ := declaration?_eq_some_iff.1 hd
    rw [hkind, hnode]
  rw [declaredOn, List.map_filterMap]
  simp only [hpair]
  refine (List.Sublist.filterMap _ List.filter_sublist).trans ?_
  induction nodes with
  | nil => exact List.Sublist.refl _
  | cons x nodes ih =>
    rw [List.filterMap_cons, List.map_cons]
    cases page.declaration? kind x with
    | none => exact ih.cons _
    | some _ => exact ih.cons_cons _

/-- The declarations in a subtree, kind by kind. -/
theorem declarations_eq {b : Branch NodeId} (hl : page.host.Linked) (hb : page.host.Holds b) :
    page.declarations b.label =
      .ok (DirectiveKind.scanOrder.flatMap (page.declaredOn b.labels)) := by
  have hof : ∀ kind ∈ DirectiveKind.scanOrder,
      page.declarationsOf b.label kind = .ok (page.declaredOn b.labels kind) := by
    intro kind _
    rw [declarationsOf, hb.withAttribute hl]
    rfl
  rw [declarations, mapM_ok hof, List.flatMap_def]
  rfl

/-- They stand kind by kind, and within a kind in the order of their nodes. -/
theorem declaredOn_product (page : Page) (nodes : List NodeId) :
    ((DirectiveKind.scanOrder.flatMap (page.declaredOn nodes)).map fun d =>
      (d.kind, d.node)).Sublist (DirectiveKind.scanOrder ×ˢ nodes) := by
  rw [List.map_flatMap]
  exact List.Sublist.flatMap_right _ fun kind _ => page.declaredOn_sublist nodes kind

/-- The declarations in a subtree: each was found on an element of it, and none twice. -/
theorem declarations_of_holds {b : Branch NodeId} (hl : page.host.Linked) (hb : page.host.Holds b) :
    ∃ ds, page.declarations b.label = .ok ds ∧ (ds.map fun d => (d.node, d.kind)).Nodup ∧
      ∀ d ∈ ds, d.node ∈ b.labels ∧
        (page.host.figure d.node).source? (page.attributeName d.kind) = some d.text ∧
        page.host.closestAncestor? d.node (page.attributeName .repetition) = none ∧
        (d.kind = .repetition ∨
          page.host.attribute? d.node (page.attributeName .repetition) = none) := by
  refine ⟨_, declarations_eq hl hb, ?_, fun d hd => ?_⟩
  · have hscan : DirectiveKind.scanOrder.Nodup := by decide
    have honce := (hscan.product (hb.nodup hl)).sublist (page.declaredOn_product b.labels)
    refine List.Nodup.of_map Prod.swap ?_
    rwa [List.map_map]
  · obtain ⟨kind, -, hd⟩ := List.mem_flatMap.1 hd
    obtain ⟨rfl, hfound⟩ := mem_declaredOn.1 hd
    exact hfound

/-- The declarations of a zone that is as it was in the first document, apart from styles. -/
theorem declarations_spec {b : Branch NodeId} {p : NodeId} (hl : page.host.Linked)
    (hb₀ : t₀.Holds b) (hb : page.host.Holds b)
    (hfigure : ∀ x, t₀.Live x → page.host.figure x = t₀.figure x) (hp : b.label ∈ t₀.children p)
    (hapart : t₀.Apart page.config) :
    ∃ ds, page.declarations b.label = .ok ds ∧ Plan page.config t₀ ds ∧
      ∀ d ∈ ds, t₀.Below b.label d.node := by
  obtain ⟨ds, hdeclarations, honce, hfound⟩ := declarations_of_holds hl hb
  have hmem : ∀ d ∈ ds, d.node ∈ b.labels ∧
      (t₀.figure d.node).source? (page.config.attributeName d.kind) = some d.text ∧
      page.host.closestAncestor? d.node (page.attributeName .repetition) = none ∧
      (d.kind = .repetition ∨
        page.host.attribute? d.node (page.attributeName .repetition) = none) := by
    intro d hd
    obtain ⟨hxb, hsource, hrest⟩ := hfound d hd
    exact ⟨hxb, hfigure d.node (hb₀.live hxb) ▸ hsource, hrest⟩
  have hattribute : ∀ d ∈ ds, page.host.attribute? d.node (page.attributeName d.kind) = some d.text :=
    fun d hd => HostTree.attribute?_of_source? (hfound d hd).2.1
  refine ⟨ds, hdeclarations, ⟨fun d hd => (hmem d hd).2.1, honce, fun d hd d' hd' heq hkind => ?_,
    fun d hd => ?_, fun d hd d' hd' hkind hbelow => ?_, fun d hd d' hd' hkind hbelow => ?_⟩,
    fun d hd => hb₀.mem_labels_iff.1 (hmem d hd).1⟩
  · rcases (hmem d' hd').2.2.2 with hkind' | hnone
    · exact hkind'
    · have hsome := hattribute d hd
      rw [hkind, heq, hnone] at hsome
      cases hsome
  · exact HostTree.Below.hooked hp (hb₀.mem_labels_iff.1 (hmem d hd).1)
  · refine hapart.texts d.node d'.node d'.kind ?_ ?_ hbelow
    · rw [← hkind, (hmem d hd).2.1]
      exact nofun
    · rw [(hmem d' hd').2.1]
      exact nofun
  · by_contra hne
    obtain ⟨c, hlabel, -, hc⟩ := HostTree.Holds.part (α := Reaction) (hmem d hd).1
    have hcarries : (page.host.attribute? c.label (page.attributeName .repetition)).isSome := by
      rw [hlabel, ← hkind, hattribute d hd]
      rfl
    have hclosest := (hc _ hb).closest hl ((hc _ hb₀).mem_labels_iff.2 (hlabel ▸ hbelow))
      (hlabel ▸ hne) hcarries
    rw [(hmem d' hd').2.2.1] at hclosest
    cases hclosest

end Page

end ReactiveTemplate
