import ReactiveTemplate.Proofs.Document.Ages
import ReactiveTemplate.Proofs.Document.Clearing

/-!
# Documents with a list

A list has a template that is copied, a placeholder behind which the copies stand, and the copies
that were made. The host may destroy copies or take them out, and nodes that it makes may get the
slots of those it destroyed: for the list, the document is as good as before.

* `HostTree.CarriesList`: what a list needs of a document.
* `HostOperation.Strikes`: what the host may do to copies.
* `HostTree.CarriesList.run`: a document carries its list on, whatever is done to the copies.
* `HostTree.CarriesList.dead_iff`: which copies are gone.
-/

namespace ReactiveTemplate

/-- The operation strikes one of some copies, or makes a node that may get the slot of one. -/
def HostOperation.Strikes {α : Type} (copies : List NodeId) : HostOperation α → Prop
  | .destroy c | .remove c => c ∈ copies
  | .createPlaceholder _ => True
  | _ => False

namespace HostTree

variable {α : Type} {t t' : HostTree α} {template placeholder c y : NodeId} {copies : List NodeId}

/-- The texts of a subtree have no children. -/
def PlainTexts (t : HostTree α) (o : NodeId) : Prop :=
  ∀ y, t.Below o y → (t.figure y).kind = .text → t.children y = []

/-- The placeholder of a list has a parent. The template is an element whose texts have no children,
    and is apart from the placeholder. The copies are apart from both of them and from each other;
    they need not be there. -/
structure CarriesList (t : HostTree α) (template placeholder : NodeId) (copies : List NodeId) :
    Prop where
  sound : t.Sound
  placed : (t.parent? placeholder).isSome
  live : t.Live template
  element : (t.figure template).kind ≠ .text
  plain : t.PlainTexts template
  outside : ¬ t.Below template placeholder
  distinct : copies.Nodup
  apart : ∀ c ∈ copies, ∀ d ∈ copies, c ≠ d → ¬ t.Below c d
  inner : ∀ c ∈ copies, c ≠ root
  aside : ∀ c ∈ copies, ¬ t.Below c placeholder
  beside : ∀ c ∈ copies, ¬ t.Below c template ∧ ¬ t.Below template c

/-- Nodes of subtrees of one shape, in corresponding places. -/
theorem Holds.twin {b : Branch NodeId} (hb : t.Holds b) : ∀ {c : Branch NodeId}, t'.Holds c →
    c.map t'.figure = b.map t.figure → ∀ y ∈ c.labels, ∃ x ∈ b.labels,
      t'.figure y = t.figure x ∧ (t'.children y).length = (t.children x).length := by
  induction b using Branch.induction with
  | h id bs ih =>
    rintro ⟨id', cs⟩ hc hshape y hy
    obtain @⟨_, _, -, hchildren, hbs⟩ := hb
    obtain @⟨_, _, -, hchildren', hcs⟩ := hc
    rw [Branch.map_node, Branch.map_node, Branch.node.injEq] at hshape
    obtain ⟨hfigure, hbelow⟩ := hshape
    rw [Branch.labels_node, List.mem_cons] at hy
    rcases hy with rfl | hy
    · refine ⟨id, by simp, hfigure, ?_⟩
      simpa only [hchildren, hchildren', List.length_map] using congrArg List.length hbelow
    · obtain ⟨d, hd, hyd⟩ := List.mem_flatMap.1 hy
      have hmem : d.map t'.figure ∈ bs.map (Branch.map t.figure) :=
        hbelow ▸ List.mem_map_of_mem hd
      obtain ⟨e, he, heq⟩ := List.mem_map.1 hmem
      obtain ⟨x, hx, hsame⟩ := ih e he (hbs e he) (hcs d hd) heq.symm y hyd
      rw [Branch.labels_node]
      exact ⟨x, List.mem_cons_of_mem _ (List.mem_flatMap.2 ⟨e, he, hx⟩), hsame⟩

/-- The texts of a copy have no children either. -/
theorem PlainTexts.cloneNode {copy : NodeId} (hs : t.Sound) (h : t.PlainTexts y) (hy : t.Live y)
    (hclone : t.cloneNode y = (.ok copy, t')) : t'.PlainTexts copy := by
  obtain ⟨b, rfl, hb⟩ := exists_holds hs.tree.linked hs.tree.acyclic hy
  obtain ⟨d, t₁, hclone₁, hcopied⟩ := cloneNode_spec hs.tree.linked hb
  rw [hclone, Prod.mk.injEq, Except.ok.injEq] at hclone₁
  obtain ⟨rfl, rfl⟩ := hclone₁
  intro z hz hkind
  obtain ⟨x, hx, hfigure, hlength⟩ :=
    hb.twin hcopied.holds hcopied.shape z (hcopied.holds.mem_labels_iff.2 hz)
  rw [hfigure] at hkind
  rw [h x (hb.mem_labels_iff.1 hx) hkind] at hlength
  exact List.eq_nil_of_length_eq_zero hlength

theorem node?_createPlaceholder (h : t.Sound) (hy : t.Live y) (label : String) :
    (t.createPlaceholder label).2.node? y = t.node? y :=
  (Beside.create h (guarded_live h) rfl rfl).same y hy

theorem run_append (t : HostTree α) (before after : List (HostOperation α)) :
    t.run (before ++ after) = (t.run before).run after :=
  List.foldl_append

/-- A node that was destroyed is gone. -/
theorem dead_of_destroy (h : t.Sound) (hroot : c ≠ root) : ¬ (t.perform (.destroy c)).2.Live c := by
  obtain ⟨e, hdestroy, hdead⟩ | ⟨t', hdestroy, -, -, -, hgone⟩ := destroy_cases h c <;>
    rw [perform, hdestroy]
  · exact hdead.resolve_left hroot
  · exact hgone c (.refl _ c)

namespace CarriesList

/-- No copy has a node of the template below it. -/
theorem spares (h : t.CarriesList template placeholder copies) (hc : c ∈ copies)
    (hy : t.Below template y) : ¬ t.Below c y := fun hbelow =>
  (h.sound.tree.linked.below_total hbelow hy).elim (h.beside c hc).1 (h.beside c hc).2

/-- Where no node gets new children, it is enough that the placeholder stays in its place and the
    template has its content. -/
theorem kept (h : t.CarriesList template placeholder copies) (hs : t'.Sound)
    (hfewer : ∀ q, t'.children q ⊆ t.children q)
    (hparent : t'.parent? placeholder = t.parent? placeholder)
    (hcontent : ∀ y, t.Below template y → t'.content y = t.content y) :
    t'.CarriesList template placeholder copies where
  sound := hs
  placed := hparent ▸ h.placed
  live := h.live.of_content (hcontent template (.refl _ _))
  element := by
    rw [figure_eq_of_content_eq (hcontent template (.refl _ _))]
    exact h.element
  plain y hy hkind := by
    have hy := Below.mono hfewer hy
    rw [figure_eq_of_content_eq (hcontent y hy)] at hkind
    exact List.subset_nil.1 (h.plain y hy hkind ▸ hfewer y)
  outside hbelow := h.outside (Below.mono hfewer hbelow)
  distinct := h.distinct
  apart c hc d hd hne hbelow := h.apart c hc d hd hne (Below.mono hfewer hbelow)
  inner := h.inner
  aside c hc hbelow := h.aside c hc (Below.mono hfewer hbelow)
  beside c hc := ⟨fun hbelow => (h.beside c hc).1 (Below.mono hfewer hbelow),
    fun hbelow => (h.beside c hc).2 (Below.mono hfewer hbelow)⟩

theorem cleared (h : t.CarriesList template placeholder copies) (hcleared : t.Cleared t' copies) :
    t'.CarriesList template placeholder copies :=
  h.kept hcleared.sound hcleared.fewer
    (hcleared.kept placeholder fun _ hc _ => h.aside _ hc).2.1
    fun y hy => (hcleared.kept y fun _ hc _ => h.spares hc hy).1

/-- Clearing the copies away leaves the template as it was. -/
theorem preorder_cleared (h : t.CarriesList template placeholder copies)
    (hcleared : t.Cleared t' copies) : t'.preorder template = t.preorder template := by
  have h' := h.cleared hcleared
  obtain ⟨b, rfl, hb⟩ := exists_holds h'.sound.tree.linked h'.sound.tree.acyclic h'.live
  have hbelow : ∀ y ∈ b.labels, t.Below b.label y := fun y hy =>
    Below.mono hcleared.fewer (hb.mem_labels_iff.1 hy)
  have hb₀ : t.Holds b := by
    refine hb.of_children (fun y hy => (hcleared.left y (hb.live hy)).1) fun y hy => ?_
    rw [(hcleared.kept y fun c hc _ => h.spares hc (hbelow y hy)).2.2]
    refine (List.filter_eq_self.2 fun z hz => ?_).symm
    rw [decide_eq_true_iff]
    exact fun hmem => (h.beside z hmem).2 ((hbelow y hy).tail hz)
  rw [hb.preorder h'.sound.tree.linked, hb₀.preorder h.sound.tree.linked]

/-! ## New lists -/

/-- Before there are copies, it is enough that template and placeholder are apart. -/
theorem of_nil (hs : t.Sound) (hplaced : (t.parent? placeholder).isSome) (hlive : t.Live template)
    (helement : (t.figure template).kind ≠ .text) (hplain : t.PlainTexts template)
    (houtside : ¬ t.Below template placeholder) : t.CarriesList template placeholder [] :=
  ⟨hs, hplaced, hlive, helement, hplain, houtside, .nil, nofun, nofun, nofun, nofun⟩

/-! ## What the host does to the copies -/

theorem destroyed (h : t.CarriesList template placeholder copies) (hc : c ∈ copies)
    (hdestroy : t.destroy c = .ok t') : t'.CarriesList template placeholder copies := by
  obtain ⟨e, hfails, -⟩ | ⟨t₁, hdestroy₁, -, -, hremoved, hgone⟩ := destroy_cases h.sound c
  · rw [hfails] at hdestroy
    cases hdestroy
  · obtain rfl : t₁ = t' := Except.ok.inj (hdestroy₁.symm.trans hdestroy)
    exact h.kept hremoved.sound (hremoved.fewer hgone) (hremoved.parent _ (h.aside c hc))
      fun y hy => hremoved.content y (h.spares hc hy)

theorem detached (h : t.CarriesList template placeholder copies) (hc : c ∈ copies)
    (hdetach : t.detach c = .ok t') : t'.CarriesList template placeholder copies := by
  cases hn : t.node? c with
  | none =>
    rw [detach_dead hn] at hdetach
    cases hdetach
  | some n =>
    obtain ⟨t₁, hdetach₁, hd⟩ := detach_spec h.sound ⟨n, hn⟩
    obtain rfl : t₁ = t' := Except.ok.inj (hdetach₁.symm.trans hdetach)
    have hne : placeholder ≠ c := fun heq => h.aside c hc (heq ▸ Below.refl t c)
    refine h.kept hd.sound hd.fewer ?_ fun y _ => hd.content y
    rw [hd.parent, if_neg hne]

theorem created (h : t.CarriesList template placeholder copies) (label : String) :
    (t.createPlaceholder label).2.CarriesList template placeholder copies := by
  have hl := h.sound.tree.linked
  have hnode := node?_allocate hl.free { Node.blank .placeholder with data := label }
  refine h.kept (h.sound.create rfl rfl) (fun q z hz => ?_) ?_ fun y hy => ?_
  · have hq := hnode q
    split at hq
    · rw [show (t.createPlaceholder label).2.children q = [] from children_of_node? hq] at hz
      cases hz
    · rwa [show (t.createPlaceholder label).2.children q = t.children q from
        children_eq_of_node?_eq hq] at hz
  · obtain ⟨p, hp⟩ := Option.isSome_iff_exists.1 h.placed
    exact parent?_eq_of_node?_eq (node?_createPlaceholder h.sound (live_of_parent? hp) label)
  · obtain ⟨b, rfl, hb⟩ :=
      exists_holds hl h.sound.tree.acyclic h.live
    exact content_eq_of_node?_eq
      (node?_createPlaceholder h.sound (hb.live (hb.mem_labels_iff.2 hy)) label)

theorem perform (h : t.CarriesList template placeholder copies) {op : HostOperation α}
    (hop : op.Strikes copies) : (t.perform op).2.CarriesList template placeholder copies := by
  cases op with
  | destroy c =>
    rw [HostTree.perform]
    cases hdestroy : t.destroy c with
    | error e => exact h
    | ok t' => exact h.destroyed hop hdestroy
  | remove c =>
    rw [HostTree.perform, HostTree.remove]
    cases hdetach : t.detach c with
    | error e => exact h
    | ok t' => exact h.detached hop hdetach
  | createPlaceholder label => exact h.created label
  | _ => exact hop.elim

theorem run {ops : List (HostOperation α)} (hops : ∀ op ∈ ops, op.Strikes copies) :
    ∀ {t : HostTree α}, t.CarriesList template placeholder copies →
      (t.run ops).CarriesList template placeholder copies := by
  induction ops with
  | nil => exact fun h => h
  | cons op ops ih =>
    exact fun h => ih (fun op hop => hops op (List.mem_cons_of_mem _ hop))
      (h.perform (hops op List.mem_cons_self))

/-! ## Which copies are gone -/

/-- Only its own destruction takes a copy away. -/
theorem live_perform (h : t.CarriesList template placeholder copies) (hmem : c ∈ copies)
    (hc : t.Live c) {op : HostOperation α} (hop : op.Strikes copies) (hne : op ≠ .destroy c) :
    (t.perform op).2.Live c := by
  cases op with
  | destroy d =>
    obtain ⟨e, hdestroy, -⟩ | ⟨t', hdestroy, -, -, hremoved, -⟩ := destroy_cases h.sound d <;>
      rw [HostTree.perform, hdestroy]
    · exact hc
    · have hdc : d ≠ c := fun heq => hne (congrArg HostOperation.destroy heq)
      exact hc.of_content (hremoved.content c (h.apart d hop c hmem hdc))
  | remove d =>
    rw [HostTree.perform, HostTree.remove]
    cases hn : t.node? d with
    | none =>
      rw [detach_dead hn]
      exact hc
    | some n =>
      obtain ⟨t', hdetach, hd⟩ := detach_spec h.sound ⟨n, hn⟩
      rw [hdetach]
      exact hc.of_content (hd.content c)
  | createPlaceholder label =>
    exact hc.of_node? (node?_createPlaceholder h.sound hc label)
  | _ => exact hop.elim

theorem live_run {ops : List (HostOperation α)} (hmem : c ∈ copies)
    (hops : ∀ op ∈ ops, op.Strikes copies) (hspared : .destroy c ∉ ops) :
    ∀ {t : HostTree α}, t.CarriesList template placeholder copies → t.Live c → (t.run ops).Live c := by
  induction ops with
  | nil => exact fun _ hc => hc
  | cons op ops ih =>
    intro t h hc
    have hop := hops op List.mem_cons_self
    rw [List.mem_cons, not_or] at hspared
    exact ih (fun op hop => hops op (List.mem_cons_of_mem _ hop)) hspared.2 (h.perform hop)
      (h.live_perform hmem hc hop (Ne.symm hspared.1))

/-- The copies that are gone are those that were destroyed. -/
theorem dead_iff (h : t.CarriesList template placeholder copies) (hmem : c ∈ copies) (hc : t.Live c)
    {ops : List (HostOperation α)} (hops : ∀ op ∈ ops, op.Strikes copies)
    (hfew : ops.length < UInt32.size) : ¬ (t.run ops).Live c ↔ .destroy c ∈ ops := by
  refine ⟨fun hdead => ?_, fun hdestroy => ?_⟩
  · by_contra hspared
    exact hdead (live_run hmem hops hspared h hc)
  · obtain ⟨before, after, rfl⟩ := List.append_of_mem hdestroy
    rw [List.append_cons] at hops hfew ⊢
    have hstrikes : ∀ op ∈ before, op.Strikes copies := fun op hop =>
      hops op (List.mem_append_left _ (List.mem_append_left _ hop))
    have hdead : ¬ (t.run (before ++ [.destroy c])).Live c := by
      rw [run_append]
      exact dead_of_destroy (run hstrikes h).sound (h.inner c hmem)
    rw [run_append]
    rw [List.length_append] at hfew
    exact (aged_run _ t).stays_dead (aged_run after _) hc hdead hfew

end CarriesList

end HostTree

end ReactiveTemplate
