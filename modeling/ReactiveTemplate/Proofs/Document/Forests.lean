import Mathlib.Order.RelClasses
import ReactiveTemplate.Proofs.Document.Moves

/-!
# Documents are forests

Parents and children fit together, no node lies below itself, and the empty slots are the free
ones. Each elementary change of a document keeps this.

* `HostTree.Tree`: parents and children fit together, without cycles.
* `HostTree.Sound`: a tree whose empty slots are all free.
* `HostTree.Acyclic.link`: a link to a node that is not above its new parent closes no cycle.
* `HostTree.Sound.touch`, `HostTree.Sound.create`, `HostTree.Sound.unhooked`,
  `HostTree.Sound.attach`, `HostTree.Sound.append`: the elementary changes.
-/

namespace ReactiveTemplate

/-- A document as hosts build it: parents and children fit together, and there are no cycles. -/
structure HostTree.Tree {α : Type} (t : HostTree α) : Prop where
  linked : t.Linked
  listed : ∀ {c p}, t.parent? c = some p → c ∈ t.children p
  acyclic : t.Acyclic

namespace HostTree

variable {α : Type} {t t' : HostTree α} {id other p c x : NodeId}

/-- In a document without cycles no node is below its children. -/
theorem Acyclic.not_below (ha : t.Acyclic) (hc : c ∈ t.children p) : ¬ t.Below c p := by
  intro hbelow
  have hcycle : Relation.TransGen (fun c p => c ∈ t.children p) p p :=
    Relation.TransGen.tail' (Relation.ReflTransGen.swap p c hbelow) hc
  exact (WellFounded.transGen ha).asymmetric p p hcycle hcycle

/-- All empty slots are free. -/
def Complete (t : HostTree α) : Prop :=
  ∀ index generation, t.slots[index]? = some ⟨generation, none⟩ → index ∈ t.free

/-- A tree that keeps account of its empty slots. -/
structure Sound (t : HostTree α) : Prop where
  tree : t.Tree
  complete : t.Complete

theorem Tree.mem_children_iff (ht : t.Tree) : c ∈ t.children p ↔ t.parent? c = some p :=
  ⟨ht.linked.child, ht.listed⟩

theorem Tree.live_parent (ht : t.Tree) (h : t.parent? c = some p) : t.Live p :=
  live_of_mem_children (ht.listed h)

theorem Tree.siblings_apart {d : NodeId} (ht : t.Tree) (hc : c ∈ t.children p) (hd : d ∈ t.children p)
    (hne : c ≠ d) : ¬ t.Below c d := by
  intro hbelow
  obtain ⟨q, hq, hcq⟩ := ht.linked.below_parent hbelow hne.symm
  rw [ht.linked.child hd, Option.some.injEq] at hq
  exact ht.acyclic.not_below hc (hq ▸ hcq)

/-- Nothing is below two children of a node. -/
theorem Tree.eq_of_below_siblings {d y : NodeId} (ht : t.Tree) (hc : c ∈ t.children p)
    (hd : d ∈ t.children p) (hcy : t.Below c y) (hdy : t.Below d y) : c = d := by
  by_contra hne
  rcases ht.linked.below_total hcy hdy with hcd | hdc
  · exact ht.siblings_apart hc hd hne hcd
  · exact ht.siblings_apart hd hc (Ne.symm hne) hdc

/-- The walk through a subtree meets the nodes below its top. -/
theorem Tree.mem_preorder (ht : t.Tree) (hid : t.Live id) : x ∈ t.preorder id ↔ t.Below id x := by
  obtain ⟨b, rfl, hb⟩ := exists_holds ht.linked ht.acyclic hid
  rw [hb.preorder ht.linked, hb.mem_labels_iff]

/-- It meets each of them once. -/
theorem Tree.nodup_preorder (ht : t.Tree) (hid : t.Live id) : (t.preorder id).Nodup := by
  obtain ⟨b, rfl, hb⟩ := exists_holds ht.linked ht.acyclic hid
  rw [hb.preorder ht.linked]
  exact hb.nodup ht.linked

theorem Sound.mem_preorder (h : t.Sound) (hid : t.Live id) : x ∈ t.preorder id ↔ t.Below id x :=
  h.tree.mem_preorder hid

/-! ## Empty slots -/

theorem Complete.modify (h : t.Complete) (id : NodeId) (change : Node α → Node α) :
    (t.modify id change).Complete := by
  intro index generation hslot
  simp only [HostTree.modify, Array.getElem?_modify] at hslot
  cases hs : t.slots[index]? with
  | none => simp [hs] at hslot
  | some slot =>
    obtain ⟨g, node⟩ := slot
    cases node with
    | none => exact h index g hs
    | some n =>
      rw [hs] at hslot
      split at hslot
      · rw [Option.map_some] at hslot
        split at hslot <;> simp at hslot
      · simp at hslot

theorem Complete.allocate (h : t.Complete) (node : Node α) : (t.allocate node).2.Complete := by
  intro index generation hslot
  cases hfree : t.free with
  | nil =>
    simp only [HostTree.allocate, hfree, Array.getElem?_push] at hslot
    split at hslot
    · simp at hslot
    · have hmem := h index generation hslot
      rw [hfree] at hmem
      cases hmem
  | cons first rest =>
    simp only [HostTree.allocate, hfree, Array.getElem?_modify] at hslot ⊢
    split at hslot
    · cases hs : t.slots[index]? <;> simp [hs] at hslot
    · next hne =>
      have hmem := h index generation hslot
      rw [hfree] at hmem
      exact (List.mem_cons.1 hmem).resolve_left fun heq => hne heq.symm

theorem Complete.vacate (h : t.Complete) (id : NodeId) : (t.vacate id).Complete := by
  intro index generation hslot
  simp only [HostTree.vacate, Array.getElem?_modify] at hslot ⊢
  split at hslot
  · next heq => exact List.mem_cons.2 (.inl heq.symm)
  · exact List.mem_cons_of_mem _ (h index generation hslot)

theorem Complete.releaseFrom (fuel : Nat) :
    ∀ {t : HostTree α} {stack : List NodeId}, t.Complete → (releaseFrom fuel stack t).Complete := by
  induction fuel with
  | zero => exact fun h => h
  | succ fuel ih =>
    intro t stack h
    cases stack with
    | nil => exact h
    | cons id stack =>
      rw [HostTree.releaseFrom]
      cases t.node? id with
      | none => exact ih h
      | some n => exact ih (h.vacate id)

/-! ## Cycles -/

theorem Acyclic.mono (ha : t.Acyclic) (hsub : ∀ q, t'.children q ⊆ t.children q) : t'.Acyclic :=
  Subrelation.wf (fun {_ q} hc => hsub q hc) ha

/-- A new link to a node that is not above its new parent closes no cycle. -/
theorem Acyclic.link (ha : t.Acyclic)
    (hchildren : ∀ q x, x ∈ t'.children q → x ∈ t.children q ∨ q = p ∧ x = c)
    (habove : ¬ t.Below c p) : t'.Acyclic := by
  have hapart : ∀ x, ¬ t.Below x p → Acc (fun c p => c ∈ t'.children p) x := by
    intro x
    induction x using ha.induction with
    | _ x ih =>
      refine fun hx => ⟨x, fun y hy => ?_⟩
      rcases hchildren x y hy with hy | ⟨rfl, -⟩
      · exact ih y hy fun hbelow => hx (Relation.ReflTransGen.head hy hbelow)
      · exact absurd (Below.refl t x) hx
  refine ⟨fun x => ?_⟩
  induction x using ha.induction with
  | _ x ih =>
    refine ⟨x, fun y hy => ?_⟩
    rcases hchildren x y hy with hy | ⟨-, rfl⟩
    · exact ih y hy
    · exact hapart y habove

/-! ## Elementary changes -/

/-- A change that keeps the place of a node. -/
theorem Tree.touch (ht : t.Tree) (id : NodeId) {change : Node α → Node α}
    (hparent : ∀ n, (change n).parent = n.parent)
    (hchildren : ∀ n, (change n).children = n.children) : (t.modify id change).Tree := by
  have hc : ∀ q, (t.modify id change).children q = t.children q := by
    intro q
    rw [children, node?_modify]
    split
    · next h =>
      rw [h, children]
      cases t.node? id <;> simp [hchildren]
    · rfl
  have hp : ∀ c, (t.modify id change).parent? c = t.parent? c := by
    intro c
    rw [parent?, node?_modify]
    split
    · next h =>
      rw [h, parent?]
      cases t.node? id <;> simp [hparent]
    · rfl
  refine ⟨ht.linked.modify id hparent hchildren, fun {c p} h => ?_, ht.acyclic.mono fun q => ?_⟩
  · rw [hc]
    exact ht.listed (hp c ▸ h)
  · rw [hc]
    exact fun _ h => h

theorem Sound.touch (h : t.Sound) (id : NodeId) {change : Node α → Node α}
    (hparent : ∀ n, (change n).parent = n.parent)
    (hchildren : ∀ n, (change n).children = n.children) : (t.modify id change).Sound :=
  ⟨h.tree.touch id hparent hchildren, h.complete.modify id change⟩

/-- A node on its own. -/
theorem Sound.create (h : t.Sound) {node : Node α} (hparent : node.parent = none)
    (hchildren : node.children = []) : (t.allocate node).2.Sound := by
  have hl := h.tree.linked
  have hnode := node?_allocate hl.free node
  have hfresh := node?_allocate_fresh hl.free node
  have hc : ∀ q, (t.allocate node).2.children q = t.children q := by
    intro q
    rw [children, hnode]
    split
    · next heq =>
      rw [heq, children_of_node?_none hfresh]
      exact hchildren
    · rfl
  have hp : ∀ c, (t.allocate node).2.parent? c = t.parent? c := by
    intro c
    rw [parent?, hnode]
    split
    · next heq =>
      rw [heq, parent?_of_node?_none hfresh]
      exact hparent
    · rfl
  refine ⟨⟨hl.allocate hchildren, fun {c p} hparent => ?_, h.tree.acyclic.mono fun q => ?_⟩,
    h.complete.allocate node⟩
  · rw [hc]
    exact h.tree.listed (hp c ▸ hparent)
  · rw [hc]
    exact fun _ hmem => hmem

/-- A node taken out of its parent. -/
theorem Sound.unhooked (h : t.Sound) (hp : t.parent? id = some p) : (t.unhooked p id).Sound := by
  have hlive := h.tree.live_parent hp
  have hid := live_of_parent? hp
  refine ⟨⟨h.tree.linked.unhooked hp hlive, fun {c q} hparent => ?_, h.tree.acyclic.mono fun q => ?_⟩,
    (h.complete.modify _ _).modify _ _⟩
  · rw [parent?_unhooked hid] at hparent
    split at hparent
    · cases hparent
    · next hne =>
      have hmem := h.tree.listed hparent
      rw [children_unhooked hlive]
      split
      · next heq =>
        rw [List.mem_filter, ← heq]
        exact ⟨hmem, by simpa using hne⟩
      · exact hmem
  · rw [children_unhooked hlive]
    split
    · next heq =>
      rw [heq]
      exact List.filter_subset_self _
    · exact fun _ hmem => hmem

/-- A node without a parent put among the children of a node that is not below it. -/
theorem Sound.attach (h : t.Sound) (hp : t.Live p) (hc : t.Live c) (hfree : t.parent? c = none)
    (hroot : c ≠ root) (habove : ¬ t.Below c p) {position : Nat}
    (hposition : position ≤ (t.children p).length) : (t.attach p c position).Sound := by
  have hl := h.tree.linked
  let t' := t.attach p c position
  have hchildren := children_attach hp c position
  have hparent := parent?_attach hc p position
  have hmem : ∀ q x, x ∈ t'.children q ↔ (q = p ∧ x = c) ∨ x ∈ t.children q := by
    intro q x
    rw [hchildren]
    split
    · next heq => rw [List.mem_insertIdx hposition, heq]; simp
    · next hne => simp [hne]
  have hlinked : t'.Linked := by
    refine hl.link hroot hfree (hl.rooted.of_content (content_attach t p c position root))
      ((hl.free.modify p _).modify c _) hparent (fun q hqp => ?_) ?_
    · rw [hchildren, if_neg hqp]
    · rw [hchildren, if_pos rfl]
      exact List.perm_insertIdx c _ hposition
  refine ⟨⟨hlinked, fun {x q} hx => ?_, ?_⟩, (h.complete.modify _ _).modify _ _⟩
  · rw [hmem]
    rw [hparent] at hx
    split at hx
    · next heq => exact .inl ⟨(Option.some.inj hx).symm, heq⟩
    · exact .inr (h.tree.listed hx)
  · refine h.tree.acyclic.link (fun q x hx => ?_) habove
    exact ((hmem q x).1 hx).symm

/-! ## New nodes -/

/-- What adding a node below a parent does. -/
structure Appended (t t' : HostTree α) (p id : NodeId) : Prop where
  fresh : ¬ t.Live id
  live : t'.Live id
  kept : ∀ y, t.Live y → y ≠ p → t'.node? y = t.node? y
  content : ∀ y, y ≠ id → t'.content y = t.content y
  parent : ∀ y, t'.parent? y = if y = id then some p else t.parent? y
  children : ∀ q, t'.children q = if q = p then t.children p ++ [id] else t.children q

theorem append_spec (hf : t.FreeSound) (hp : t.Live p) {node : Node α}
    (hchildren : node.children = []) :
    ∃ id t', t.append p node = (id, t') ∧ t.Appended t' p id := by
  let id := (t.allocate { node with parent := some p }).1
  let t₁ := (t.allocate { node with parent := some p }).2
  let t' := t₁.relist p fun ids => ids ++ [id]
  have hnode : ∀ y, t₁.node? y = if y = id then some { node with parent := some p } else t.node? y :=
    node?_allocate hf { node with parent := some p }
  have hfresh : t.node? id = none := node?_allocate_fresh hf { node with parent := some p }
  have hdead : ¬ t.Live id := not_live_iff.2 hfresh
  have hsame : ∀ y, y ≠ id → t₁.node? y = t.node? y := by
    intro y hy
    rw [hnode, if_neg hy]
  have hpid : p ≠ id := fun heq => hdead (heq ▸ hp)
  have hp₁ : t₁.Live p := hp.of_node? (hsame p hpid)
  have hid : t₁.node? id = some { node with parent := some p } := by rw [hnode, if_pos rfl]
  have hparent : ∀ y, t'.parent? y = if y = id then some p else t.parent? y := by
    intro y
    rw [parent?_relist]
    split
    · next heq =>
      rw [heq, parent?_of_node? hid]
    · next hne => exact parent?_eq_of_node?_eq (hsame y hne)
  have hlists : ∀ q, t'.children q = if q = p then t.children p ++ [id] else t.children q := by
    intro q
    rw [children_relist hp₁]
    split
    · rw [children_eq_of_node?_eq (hsame p hpid)]
    · by_cases hq : q = id
      · rw [hq, children_of_node? hid, children_of_node?_none hfresh]
        exact hchildren
      · exact children_eq_of_node?_eq (hsame q hq)
  refine ⟨id, t', rfl, hdead, live_relist ⟨_, hid⟩ p _, fun y hy hne => ?_, fun y hy => ?_, hparent,
    hlists⟩
  · rw [← hsame y fun heq => hdead (heq ▸ hy)]
    exact node?_modify_of_ne hne _
  · show t'.content y = _
    rw [content_relist, content_eq_of_node?_eq (hsame y hy)]

theorem FreeSound.append (hf : t.FreeSound) (p : NodeId) (node : Node α) :
    (t.append p node).2.FreeSound := (hf.allocate _).modify p _

theorem Complete.append (h : t.Complete) (p : NodeId) (node : Node α) :
    (t.append p node).2.Complete := (h.allocate _).modify p _

/-- A new node as the last child of another. -/
theorem Sound.append (h : t.Sound) (hp : t.Live p) {node : Node α} (hchildren : node.children = []) :
    (t.append p node).2.Sound := by
  have hl := h.tree.linked
  have hfree := hl.free.append p node
  have hcomplete := h.complete.append p node
  obtain ⟨id, t', happend, ha⟩ := append_spec hl.free hp hchildren
  rw [happend] at hfree hcomplete ⊢
  have hne : ∀ y, t.Live y → y ≠ id := fun y hy heq => ha.fresh (heq ▸ hy)
  have hmem : ∀ q x, x ∈ t'.children q ↔ x ∈ t.children q ∨ q = p ∧ x = id := by
    intro q x
    rw [ha.children]
    split
    · next heq => simp [heq]
    · next hne => simp [hne]
  refine ⟨⟨⟨?_, ?_, hfree, ?_, ?_⟩, fun {x q} hx => ?_, ?_⟩, hcomplete⟩
  · exact hl.rooted.of_content (ha.content root (hne root hl.rooted))
  · rw [ha.parent, if_neg (hne root hl.rooted), hl.top]
  · intro q x hx
    rw [ha.parent]
    rcases (hmem q x).1 hx with hold | ⟨rfl, rfl⟩
    · rw [if_neg (hne x (hl.live hold))]
      exact hl.child hold
    · rw [if_pos rfl]
  · intro q
    rw [ha.children]
    split
    · refine List.nodup_append.2 ⟨hl.nodup p, List.nodup_singleton _, fun x hx y hy => ?_⟩
      rw [List.mem_singleton.1 hy]
      exact hne x (hl.live hx)
    · exact hl.nodup q
  · rw [hmem]
    rw [ha.parent] at hx
    split at hx
    · next heq => exact .inr ⟨(Option.some.inj hx).symm, heq⟩
    · exact .inl (h.tree.listed hx)
  · refine h.tree.acyclic.link (fun q x hx => (hmem q x).1 hx) fun hbelow => ?_
    rcases Relation.ReflTransGen.cases_head hbelow with rfl | ⟨x, hx, -⟩
    · exact ha.fresh hp
    · exact ha.fresh (live_of_mem_children hx)

end HostTree

end ReactiveTemplate
