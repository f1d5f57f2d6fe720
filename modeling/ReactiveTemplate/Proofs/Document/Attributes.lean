import ReactiveTemplate.Proofs.Document.Clearing
import ReactiveTemplate.Proofs.Document.Counts

/-!
# Attributes below a node

What carries an attribute below a node, and what carried it before a change of the document. New
texts, changes of other data and the removal of nodes bring no attribute anywhere.

* `HostTree.CarriesLess`: whatever carries an attribute below a node did so before.
* `HostTree.Copied.source?`: the attributes of a copy are those of the copied subtree.
* `HostTree.Swapped.below`: what lies below a node when others come into the place of one.
-/

namespace ReactiveTemplate

/-- Texts ask for nothing. -/
theorem Figure.kind_ne_text_of_source? {f : Figure} {name source : String}
    (h : f.source? name = some source) : f.kind ≠ .text := by
  intro hkind
  rw [source?, hkind] at h
  cases h

namespace HostTree

variable {α : Type} {t t' t'' : HostTree α} {id o c x y : NodeId} {name source : String}

theorem live_of_attribute? (h : t.attribute? y name = some source) : t.Live y := by
  rw [attribute?] at h
  obtain ⟨n, hn, -⟩ := Option.bind_eq_some_iff.1 h
  exact ⟨n, hn⟩

theorem attribute?_of_content_eq (h : t'.content y = t.content y) (name : String) :
    t'.attribute? y name = t.attribute? y name := by
  rw [attribute?_eq_figure, attribute?_eq_figure, figure_eq_of_content_eq h]

theorem kind_update {change : Node α → Node α} (hupdate : t.update id change = .ok t')
    (hkind : ∀ n, (change n).kind = n.kind) (y : NodeId) :
    (t'.figure y).kind = (t.figure y).kind := by
  rw [eq_modify_of_update hupdate, figure, figure, node?_modify]
  split
  · next heq =>
    rw [heq]
    cases t.node? id with
    | none => rfl
    | some n => exact hkind n
  · rfl

/-! ## Changes that bring no attributes -/

/-- Whatever carries an attribute below a node did so before, as a node of the same kind. -/
def CarriesLess (t t' : HostTree α) : Prop :=
  ∀ o y name source, t'.Below o y → t'.attribute? y name = some source →
    t.Below o y ∧ t.attribute? y name = some source ∧ (t'.figure y).kind = (t.figure y).kind

namespace CarriesLess

theorem refl (t : HostTree α) : t.CarriesLess t := fun _ _ _ _ hbelow hname => ⟨hbelow, hname, rfl⟩

theorem trans (h : t.CarriesLess t') (h' : t'.CarriesLess t'') : t.CarriesLess t'' := by
  intro o y name source hbelow hname
  obtain ⟨hbelow', hname', hkind'⟩ := h' o y name source hbelow hname
  obtain ⟨hbelow'', hname'', hkind''⟩ := h o y name source hbelow' hname'
  exact ⟨hbelow'', hname'', hkind'.trans hkind''⟩

/-- The node itself has no other attributes than before. -/
theorem attribute? (h : t.CarriesLess t') (hname : t'.attribute? y name = some source) :
    t.attribute? y name = some source :=
  (h y y name source (Below.refl t' y) hname).2.1

/-- An element below a node that asks for something asked for it before. -/
theorem source? (h : t.CarriesLess t') (hbelow : t'.Below o y)
    (hname : (t'.figure y).source? name = some source) :
    t.Below o y ∧ (t.figure y).source? name = some source := by
  obtain ⟨hbelow', hname', hkind⟩ := h o y name source hbelow (attribute?_of_source? hname)
  refine ⟨hbelow', ?_⟩
  rw [attribute?_eq_figure] at hname'
  rw [Figure.source?, hkind] at hname
  rw [Figure.source?]
  cases hcase : (t.figure y).kind with
  | element tag => exact hname'
  | document | text | placeholder =>
    rw [hcase] at hname
    cases hname

/-- A change of a node that leaves alone its kind, its attributes and its children. -/
theorem update {change : Node α → Node α} (hupdate : t.update id change = .ok t')
    (hkind : ∀ n, (change n).kind = n.kind) (hattributes : ∀ n, (change n).attributes = n.attributes)
    (hchildren : ∀ n, (change n).children = n.children) : t.CarriesLess t' := by
  intro o y name source hbelow hname
  rw [attribute?_update hupdate hattributes] at hname
  refine ⟨Below.mono (fun q z hz => ?_) hbelow, hname, kind_update hupdate hkind y⟩
  rw [eq_modify_of_update hupdate, HostTree.children, node?_modify] at hz
  split at hz
  · next heq =>
    rw [heq, HostTree.children]
    cases hn : t.node? id with
    | none =>
      rw [hn] at hz
      cases hz
    | some n =>
      rw [hn] at hz
      rwa [Option.map_some, Option.elim_some, hchildren] at hz
  · exact hz

end CarriesLess

/-- An element keeps its attributes when it gets a new text. -/
theorem attribute?_setText_self (h : t.Sound) {text : String} (hset : t.setText id text = .ok t')
    (name : String) : t'.attribute? id name = t.attribute? id name := by
  obtain ⟨n, hn, ⟨hkind, -⟩ | rfl⟩ := setText_cases hset
  · obtain ⟨t₁, hset₁, htext⟩ := setText_spec h.tree.linked hn hkind
      (fun c hc => h.tree.acyclic.not_below hc) text
    rw [hset₁] at hset
    exact attribute?_of_content_eq (Except.ok.inj hset ▸ htext.content) name
  · rw [attribute?, attribute?, node?_modify_self, hn]
    rfl

/-- A new text carries nothing, and what it replaces carries no more. -/
theorem CarriesLess.setText (h : t.Sound) {text : String} (hset : t.setText id text = .ok t') :
    t.CarriesLess t' := by
  have hrefill := setText_refills h hset
  intro o y name source hbelow hname
  have hy' := live_of_attribute? hname
  have hy : t.Live y := by
    by_contra hy
    rw [(hrefill.new y hy' hy).2.2] at hname
    cases hname
  have ho' := hbelow.live_above hy'
  refine ⟨hrefill.of_below (h.setText hset).tree.linked hbelow hy ho', ?_, hrefill.kind_eq hy hy'⟩
  by_cases hne : y = id
  · rw [hne, attribute?_setText_self h hset] at hname
    rwa [hne]
  · rwa [attribute?_of_content_eq (hrefill.same y hy hy' hne).1] at hname

/-- Nodes that are cleared away carry nothing any more. -/
theorem CarriesLess.cleared {ids : List NodeId} (h : t.Cleared t' ids) : t.CarriesLess t' := by
  intro o y name source hbelow hname
  have hcontent := (h.kept y (h.left y (live_of_attribute? hname)).2).1
  rw [attribute?_of_content_eq hcontent] at hname
  exact ⟨Below.mono h.fewer hbelow, hname, by rw [figure_eq_of_content_eq hcontent]⟩

/-! ## Subtrees -/

/-- What an element of a copy asks for, an element of the copied subtree asks for. -/
theorem Copied.source? {b d : Branch NodeId} (hb : t.Holds b) (h : t.Copied t' b d)
    (hbelow : t'.Below d.label y) (hname : (t'.figure y).source? name = some source) :
    ∃ x, t.Below b.label x ∧ (t.figure x).source? name = some source := by
  have hfigure : t'.figure y ∈ (b.map t.figure).labels := by
    rw [← h.shape, Branch.labels_map]
    exact List.mem_map_of_mem (h.holds.mem_labels_iff.2 hbelow)
  rw [Branch.labels_map] at hfigure
  obtain ⟨x, hx, heq⟩ := List.mem_map.1 hfigure
  exact ⟨x, hb.mem_labels_iff.1 hx, heq ▸ hname⟩

/-- When some nodes come into the place of one, a node contains what it contained, and maybe them
    with all that they contain. -/
theorem Swapped.below {old : NodeId} {new : List NodeId} (h : t.Swapped t' old new)
    (hbelow : t'.Below o y) : t.Below o y ∨ ∃ x ∈ new, x ≠ old ∧ t.Below x y := by
  induction hbelow with
  | refl => exact .inl (Below.refl t o)
  | @tail p c _ hc ih =>
    rw [h.children, List.mem_flatMap] at hc
    obtain ⟨d, hd, hc⟩ := hc
    by_cases hold : c = d
    · rw [← hold] at hd
      exact ih.imp (fun hp => hp.tail hd) fun ⟨x, hx, hne, hp⟩ => ⟨x, hx, hne, hp.tail hd⟩
    · by_cases hdold : d = old
      · rw [hdold, swap_self] at hc
        exact .inr ⟨c, hc, hdold ▸ hold, Below.refl t c⟩
      · rw [swap_of_ne hdold, List.mem_singleton] at hc
        exact absurd hc hold

end HostTree

end ReactiveTemplate
