import Mathlib.Data.List.Nodup
import Mathlib.Data.List.Perm.Subperm
import Mathlib.Data.Nat.Basic
import Mathlib.Order.Basic
import ReactiveTemplate.Proofs.Document.Nodes

/-!
# Branches of a document

A subtree written out as a tree of names, and its shape as a tree of figures.

* `Branch`: finite trees of labels.
* `HostTree.Holds`: a document has a subtree. `HostTree.Draws`: it has one of a shape.
* `HostTree.Holds.nodup`, `HostTree.Holds.length_le`: no node occurs twice in a subtree, so
  there are no more nodes in it than slots.
* `HostTree.Holds.preorder`, `HostTree.Holds.withAttribute`: walks through a subtree.
* `HostTree.Draws.text_eq`: the text of a subtree.
* `HostTree.exists_holds`: below every node of a document without cycles is a subtree.
-/

namespace ReactiveTemplate

/-- A finite tree of labels. -/
inductive Branch (β : Type) where
  | node (label : β) (below : List (Branch β))

namespace Branch

variable {β γ δ : Type}

/-- The label at the top. -/
def label : Branch β → β
  | .node b _ => b

/-- All labels, each before those below it. -/
def labels : Branch β → List β
  | .node b bs => b :: bs.flatMap labels

/-- The tree with other labels, in which some nodes get other trees below them. -/
def rewrite (f : β → γ) (cut : β → Option (List (Branch γ))) : Branch β → Branch γ
  | .node b bs => .node (f b) ((cut b).getD (bs.map (rewrite f cut)))

/-- The tree with other labels. -/
def map (f : β → γ) : Branch β → Branch γ
  | .node b bs => .node (f b) (bs.map (map f))

@[simp] theorem labels_node (b : β) (bs : List (Branch β)) :
    labels (.node b bs) = b :: bs.flatMap labels := by
  rw [labels]

@[simp] theorem rewrite_node (f : β → γ) (cut : β → Option (List (Branch γ))) (b : β)
    (bs : List (Branch β)) :
    rewrite f cut (.node b bs) = .node (f b) ((cut b).getD (bs.map (rewrite f cut))) := by
  rw [rewrite]

@[simp] theorem map_node (f : β → γ) (b : β) (bs : List (Branch β)) :
    map f (.node b bs) = .node (f b) (bs.map (map f)) := by
  rw [map]

/-- The text of a tree of figures. -/
def text : Branch Figure → String
  | .node f bs =>
    match f.kind with
    | .text => f.data
    | .placeholder => ""
    | .document | .element _ => String.join (bs.map text)

theorem text_node (f : Figure) (bs : List (Branch Figure)) :
    text (.node f bs) =
      match f.kind with
      | .text => f.data
      | .placeholder => ""
      | .document | .element _ => String.join (bs.map text) := by
  rw [text]

/-- What holds of a tree when it holds of the trees below its top holds of all trees. -/
theorem induction {motive : Branch β → Prop}
    (h : ∀ b bs, (∀ x ∈ bs, motive x) → motive (.node b bs)) : ∀ x, motive x
  | .node b bs => h b bs fun x _ => induction h x

/-- A tree has fewer labels than one it lies directly below. -/
theorem length_labels_lt {b : β} {bs : List (Branch β)} {c : Branch β} (hc : c ∈ bs) :
    c.labels.length < (labels (.node b bs)).length := by
  have hle := (List.sublist_flatten_of_mem (List.mem_map_of_mem (f := labels) hc)).length_le
  rw [labels_node, List.length_cons, List.flatMap_def]
  omega

theorem label_mem_labels (x : Branch β) : x.label ∈ x.labels := by
  cases x with
  | node b bs => simp [label]

theorem label_map (f : β → γ) (x : Branch β) : (x.map f).label = f x.label := by
  cases x with
  | node b bs => simp [label]

theorem map_congr {f g : β → γ} (x : Branch β) (h : ∀ b ∈ x.labels, f b = g b) :
    x.map f = x.map g := by
  induction x using induction with
  | h b bs ih =>
    rw [map_node, map_node, h b (by simp)]
    congr 1
    refine List.map_congr_left fun y hy => ih y hy fun c hc => h c ?_
    rw [labels_node]
    exact List.mem_cons_of_mem _ (List.mem_flatMap.2 ⟨y, hy, hc⟩)

theorem map_map (f : β → γ) (g : γ → δ) (x : Branch β) : (x.map f).map g = x.map (g ∘ f) := by
  induction x using induction with
  | h b bs ih =>
    rw [map_node, map_node, map_node, List.map_map]
    congr 1
    exact List.map_congr_left fun y hy => ih y hy

theorem labels_map (f : β → γ) (x : Branch β) : (x.map f).labels = x.labels.map f := by
  induction x using induction with
  | h b bs ih =>
    rw [map_node, labels_node, labels_node, List.map_cons, List.map_flatMap, List.flatMap_map]
    congr 1
    exact List.flatMap_congr ih

end Branch

namespace HostTree

variable {α : Type} {t t' : HostTree α} {x : NodeId} {b b' : Branch NodeId}

/-- A document has a subtree: its top exists, and the children of each of its nodes are the
    ones below it. -/
inductive Holds (t : HostTree α) : Branch NodeId → Prop
  | node {id : NodeId} {bs : List (Branch NodeId)} : t.Live id →
    t.children id = bs.map Branch.label → (∀ b ∈ bs, Holds t b) → Holds t (.node id bs)

/-- A document has a subtree of a shape at a node. -/
def Draws (t : HostTree α) (id : NodeId) (shape : Branch Figure) : Prop :=
  ∃ b, t.Holds b ∧ b.label = id ∧ b.map t.figure = shape

/-- No node of a document lies below itself, and there are no endless descents. -/
def Acyclic (t : HostTree α) : Prop := WellFounded fun c p => c ∈ t.children p

namespace Holds

theorem live_label (h : t.Holds b) : t.Live b.label := by
  cases h with
  | node hlive _ _ => exact hlive

/-! ## Nodes of a subtree -/

theorem live (h : t.Holds b) (hx : x ∈ b.labels) : t.Live x := by
  induction h with
  | node hlive _ _ ih =>
    rw [Branch.labels_node] at hx
    rcases List.mem_cons.1 hx with rfl | hx
    · exact hlive
    · obtain ⟨c, hc, hx⟩ := List.mem_flatMap.1 hx
      exact ih c hc hx

/-- The children of the nodes of a subtree belong to it. -/
theorem closed {y : NodeId} (h : t.Holds b) (hx : x ∈ b.labels) (hy : y ∈ t.children x) :
    y ∈ b.labels := by
  induction h with
  | @node id bs _ hchildren _ ih =>
    rw [Branch.labels_node] at hx ⊢
    refine List.mem_cons_of_mem _ (List.mem_flatMap.2 ?_)
    rcases List.mem_cons.1 hx with rfl | hx
    · rw [hchildren] at hy
      obtain ⟨c, hc, rfl⟩ := List.mem_map.1 hy
      exact ⟨c, hc, c.label_mem_labels⟩
    · obtain ⟨c, hc, hx⟩ := List.mem_flatMap.1 hx
      exact ⟨c, hc, ih c hc hx⟩

/-- The nodes of a subtree are those below its top. -/
theorem mem_labels_iff (h : t.Holds b) : x ∈ b.labels ↔ t.Below b.label x := by
  constructor
  · intro hx
    induction h with
    | node _ hchildren _ ih =>
      rw [Branch.labels_node] at hx
      rcases List.mem_cons.1 hx with rfl | hx
      · exact Below.refl t _
      · obtain ⟨c, hc, hx⟩ := List.mem_flatMap.1 hx
        refine Relation.ReflTransGen.head ?_ (ih c hc hx)
        rw [Branch.label, hchildren]
        exact List.mem_map_of_mem hc
  · intro hx
    induction hx with
    | refl => exact b.label_mem_labels
    | tail _ hchild ih => exact h.closed ih hchild

/-- Each node of a tree is the top of a part of it, wherever the tree is a subtree. -/
theorem part {b : Branch NodeId} (hx : x ∈ b.labels) :
    ∃ c, c.label = x ∧ c.labels.length ≤ b.labels.length ∧
      ∀ t : HostTree α, t.Holds b → t.Holds c := by
  induction b using Branch.induction with
  | h id bs ih =>
    rw [Branch.labels_node] at hx
    rcases List.mem_cons.1 hx with rfl | hx
    · exact ⟨.node x bs, rfl, le_refl _, fun _ h => h⟩
    · obtain ⟨c, hc, hx⟩ := List.mem_flatMap.1 hx
      obtain ⟨d, hlabel, hlength, hd⟩ := ih c hc hx
      have hlt := Branch.length_labels_lt (b := id) hc
      refine ⟨d, hlabel, by omega, fun t h => ?_⟩
      cases h with
      | node _ _ hbelow => exact hd t (hbelow c hc)

/-- A document has one subtree at a node. -/
theorem unique (h : t.Holds b) (h' : t.Holds b') (hlabel : b.label = b'.label) : b = b' := by
  induction h generalizing b' with
  | @node id bs _ hchildren hbelow ih =>
    cases h' with
    | @node id' bs' _ hchildren' hbelow' =>
      obtain rfl : id = id' := hlabel
      congr 1
      have hmap : bs.map Branch.label = bs'.map Branch.label := by rw [← hchildren, hchildren']
      clear hchildren hchildren' hbelow
      induction bs generalizing bs' with
      | nil =>
        rw [List.map_nil, eq_comm, List.map_eq_nil_iff] at hmap
        exact hmap.symm
      | cons c bs ihbs =>
        cases bs' with
        | nil => cases hmap
        | cons c' bs' =>
          rw [List.map_cons, List.map_cons, List.cons.injEq] at hmap
          rw [ih c (by simp) (hbelow' c' (by simp)) hmap.1,
            ihbs (fun d hd => ih d (List.mem_cons_of_mem _ hd))
              (fun d hd => hbelow' d (List.mem_cons_of_mem _ hd)) hmap.2]

/-- The top of a subtree is not below any of its children. -/
theorem label_not_mem {id : NodeId} {bs : List (Branch NodeId)} (h : t.Holds (.node id bs))
    {c : Branch NodeId} (hc : c ∈ bs) : id ∉ c.labels := by
  intro hmem
  cases h with
  | node hlive hchildren hbelow =>
    obtain ⟨d, hlabel, hlength, hd⟩ := part (α := α) hmem
    have heq := (hd t (hbelow c hc)).unique (.node hlive hchildren hbelow) hlabel
    have hlt := Branch.length_labels_lt (b := id) hc
    rw [heq] at hlength
    omega

/-- No node occurs twice in a subtree. -/
theorem nodup (hl : t.Linked) (h : t.Holds b) : b.labels.Nodup := by
  have htop := h
  induction h with
  | @node id bs hlive hchildren hbelow ih =>
    rw [Branch.labels_node, List.nodup_cons]
    constructor
    · rw [List.mem_flatMap]
      rintro ⟨c, hc, hmem⟩
      exact htop.label_not_mem hc hmem
    · rw [List.nodup_flatMap]
      refine ⟨fun c hc => ih c hc (hbelow c hc), ?_⟩
      have hnodup := hl.nodup id
      rw [hchildren, List.Nodup, List.pairwise_map] at hnodup
      refine hnodup.imp_of_mem fun {c d} hc hd hne y hyc hyd => ?_
      -- Of two children one would have to be below the other, and its parent with it.
      have hchild : ∀ e ∈ bs, t.parent? e.label = some id := fun e he =>
        hl.child (hchildren ▸ List.mem_map_of_mem he)
      rw [(hbelow c hc).mem_labels_iff] at hyc
      rw [(hbelow d hd).mem_labels_iff] at hyd
      rcases hl.below_total hyc hyd with hcd | hdc
      · obtain ⟨p, hp, hcp⟩ := hl.below_parent hcd hne.symm
        obtain rfl := Option.some.inj ((hchild d hd).symm.trans hp)
        exact htop.label_not_mem hc ((hbelow c hc).mem_labels_iff.2 hcp)
      · obtain ⟨p, hp, hdp⟩ := hl.below_parent hdc hne
        obtain rfl := Option.some.inj ((hchild c hc).symm.trans hp)
        exact htop.label_not_mem hd ((hbelow d hd).mem_labels_iff.2 hdp)

end Holds

/-- Two live names of one slot are the same. -/
theorem eq_of_index_eq {y : NodeId} (hx : t.Live x) (hy : t.Live y) (h : x.index = y.index) :
    x = y := by
  obtain ⟨n, hn⟩ := hx
  obtain ⟨m, hm⟩ := hy
  obtain ⟨i, g⟩ := x
  obtain ⟨j, k⟩ := y
  obtain rfl : i = j := h
  simp only [node?] at hn hm
  cases hslot : t.slots[i]? with
  | none => simp [hslot] at hn
  | some slot =>
    rw [hslot] at hn hm
    dsimp only at hn hm
    split at hn
    · split at hm
      · next hg hk => rw [← hg, ← hk]
      · cases hm
    · cases hn

theorem index_lt_of_live (hx : t.Live x) : x.index < t.slots.size := by
  obtain ⟨n, hn⟩ := hx
  by_contra hge
  have hnone : t.slots[x.index]? = none := Array.getElem?_eq_none (by omega)
  simp [node?, hnone] at hn

/-- Distinct nodes are no more than slots. -/
theorem length_le_size {ids : List NodeId} (hnodup : ids.Nodup) (hlive : ∀ id ∈ ids, t.Live id) :
    ids.length ≤ t.slots.size := by
  have hindex : (ids.map NodeId.index).Nodup := by
    refine hnodup.map_on fun x hx y hy h => ?_
    exact eq_of_index_eq (hlive x hx) (hlive y hy) h
  have hrange : ids.map NodeId.index ⊆ List.range t.slots.size := by
    intro i hi
    obtain ⟨x, hx, rfl⟩ := List.mem_map.1 hi
    exact List.mem_range.2 (index_lt_of_live (hlive x hx))
  have hle := (List.subperm_of_subset hindex hrange).length_le
  rwa [List.length_map, List.length_range] at hle

namespace Holds

theorem length_le (hl : t.Linked) (h : t.Holds b) : b.labels.length ≤ t.slots.size :=
  length_le_size (h.nodup hl) fun _ hx => h.live hx

/-! ## Walks -/

theorem preorderFrom {bs : List (Branch NodeId)} (fuel : Nat) (h : ∀ b ∈ bs, t.Holds b)
    (hfuel : (bs.flatMap Branch.labels).length ≤ fuel) :
    t.preorderFrom fuel (bs.map Branch.label) = bs.flatMap Branch.labels := by
  induction fuel generalizing bs with
  | zero =>
    rw [List.eq_nil_of_length_eq_zero (Nat.le_zero.1 hfuel)]
    rfl
  | succ fuel ih =>
    cases bs with
    | nil => rfl
    | cons b bs =>
      have hb := h b (by simp)
      cases hb with
      | @node id cs hlive hchildren hbelow =>
        obtain ⟨n, hn⟩ := hlive
        have hcs : n.children = cs.map Branch.label := by rw [← children_of_node? hn, hchildren]
        rw [List.flatMap_cons, Branch.labels_node, List.cons_append, List.length_cons] at hfuel
        rw [List.map_cons, Branch.label, HostTree.preorderFrom, hn]
        dsimp only
        rw [hcs, ← List.map_append, ih, List.flatMap_append, List.flatMap_cons, Branch.labels_node,
          List.cons_append]
        · intro d hd
          rcases List.mem_append.1 hd with hd | hd
          · exact hbelow d hd
          · exact h d (List.mem_cons_of_mem _ hd)
        · rw [List.flatMap_append]
          omega

/-- The walk through a subtree meets all its nodes. -/
theorem preorder (hl : t.Linked) (h : t.Holds b) : t.preorder b.label = b.labels := by
  have hwalk : t.preorderFrom t.slots.size ([b].map Branch.label) = [b].flatMap Branch.labels :=
    preorderFrom t.slots.size (by simpa using h) (by simpa using h.length_le hl)
  simpa [HostTree.preorder] using hwalk

end Holds

end HostTree

/-- The text of an attribute of an element. -/
def Figure.source? (f : Figure) (name : String) : Option String :=
  match f.kind with
  | .element _ => f.attributes.get? name
  | _ => none

namespace HostTree

variable {α : Type} {t t' : HostTree α} {x : NodeId} {b b' : Branch NodeId} {name : String}

theorem attribute?_of_source? {text : String} (h : (t.figure x).source? name = some text) :
    t.attribute? x name = some text := by
  cases hx : t.node? x with
  | none =>
    rw [figure, hx] at h
    cases h
  | some n =>
    rw [figure_of_node? hx, Figure.source?] at h
    rw [attribute?, hx, Option.bind_some]
    split at h
    · exact h
    · cases h

/-- The elements with an attribute in a subtree, in document order. -/
theorem Holds.withAttribute (hl : t.Linked) (h : t.Holds b) (name : String) :
    t.withAttribute b.label name =
      .ok (b.labels.filter fun x => ((t.figure x).source? name).isSome) := by
  obtain ⟨n, hn⟩ := h.live_label
  rw [HostTree.withAttribute, get_of_node? hn]
  change Except.ok _ = _
  rw [h.preorder hl]
  congr 1
  refine List.filter_congr fun x hx => ?_
  obtain ⟨m, hm⟩ := h.live hx
  rw [figure_of_node? hm, hm, Option.elim_some, Figure.source?, Node.isElement, Fields.contains]
  cases hkind : m.kind <;> simp [Node.figure, hkind]

/-! ## Subtrees under edits -/

/-- A subtree stays where its nodes keep their children. -/
theorem Holds.of_children (h : t.Holds b) (hlive : ∀ x ∈ b.labels, t'.Live x)
    (hchildren : ∀ x ∈ b.labels, t'.children x = t.children x) : t'.Holds b := by
  induction h with
  | @node id bs _ hc _ ih =>
    refine .node (hlive id (by simp)) ?_ fun c hmem => ?_
    · rw [hchildren id (by simp), hc]
    · have hsub : ∀ x ∈ c.labels, x ∈ (Branch.node id bs).labels := fun x hx => by
        rw [Branch.labels_node]
        exact List.mem_cons_of_mem _ (List.mem_flatMap.2 ⟨c, hmem, hx⟩)
      exact ih c hmem (fun x hx => hlive x (hsub x hx)) fun x hx => hchildren x (hsub x hx)

/-- A subtree stays where its nodes stay. -/
theorem Holds.frame (h : t.Holds b) (hsame : ∀ x ∈ b.labels, t'.node? x = t.node? x) :
    t'.Holds b := by
  exact h.of_children (fun x hx => (h.live hx).of_node? (hsame x hx)) fun x hx =>
    children_eq_of_node?_eq (hsame x hx)

/-- A shape stays where the nodes stay. -/
theorem Draws.frame {shape : Branch Figure} (h : t.Draws x shape)
    (hsame : ∀ y, t.Below x y → t'.node? y = t.node? y) : t'.Draws x shape := by
  obtain ⟨b, hb, rfl, rfl⟩ := h
  have hlabels : ∀ y ∈ b.labels, t'.node? y = t.node? y := fun y hy =>
    hsame y (hb.mem_labels_iff.1 hy)
  refine ⟨b, hb.frame hlabels, rfl, ?_⟩
  exact b.map_congr fun y hy => figure_eq_of_node?_eq (hlabels y hy)

theorem Draws.unique {shape shape' : Branch Figure} (h : t.Draws x shape)
    (h' : t.Draws x shape') : shape = shape' := by
  obtain ⟨b, hb, hx, rfl⟩ := h
  obtain ⟨b', hb', hx', rfl⟩ := h'
  rw [hb.unique hb' (hx.trans hx'.symm)]

/-- The text of a subtree is told by its shape. -/
theorem Holds.textWithin (h : t.Holds b) :
    ∀ {depth : Nat} {n : Node α}, b.labels.length ≤ depth → t.node? b.label = some n →
      t.textWithin depth n = (b.map t.figure).text := by
  induction h with
  | @node id bs hlive hchildren hbelow ih =>
    intro depth n hdepth hn
    have hn' : t.node? id = some n := hn
    obtain ⟨depth, rfl⟩ : ∃ d, depth = d + 1 :=
      Nat.exists_eq_succ_of_ne_zero fun hzero => by simp [hzero] at hdepth
    have hparts : (n.children.map fun child => (t.node? child).elim "" (t.textWithin depth)) =
        (bs.map (Branch.map t.figure)).map Branch.text := by
      rw [← children_of_node? hn', hchildren, List.map_map, List.map_map]
      refine List.map_congr_left fun c hc => ?_
      obtain ⟨m, hm⟩ := (hbelow c hc).live_label
      have hlt := Branch.length_labels_lt (b := id) hc
      show (t.node? c.label).elim "" (t.textWithin depth) = (c.map t.figure).text
      rw [hm]
      exact ih c hc (by omega) hm
    have hkind : (t.figure id).kind = n.kind := congrArg Figure.kind (figure_of_node? hn')
    have hdata : (t.figure id).data = n.data := congrArg Figure.data (figure_of_node? hn')
    rewrite [HostTree.textWithin, Branch.map_node, Branch.text_node, hkind, hdata, hparts]
    cases n.kind <;> rfl

theorem Draws.text_eq (hl : t.Linked) {shape : Branch Figure} (h : t.Draws x shape) :
    t.text x = .ok shape.text := by
  obtain ⟨b, hb, rfl, rfl⟩ := h
  obtain ⟨n, hn⟩ := hb.live_label
  rw [HostTree.text, get_of_node? hn]
  exact congrArg Except.ok (hb.textWithin ((hb.length_le hl).trans (Nat.le_succ _)) hn)

/-- Below every node of a document without cycles is a subtree. -/
theorem exists_holds (hl : t.Linked) (ha : t.Acyclic) (hx : t.Live x) :
    ∃ b, b.label = x ∧ t.Holds b := by
  induction x using ha.induction with
  | _ x ih =>
    have heach : ∀ ids, ids ⊆ t.children x →
        ∃ bs : List (Branch NodeId), ids = bs.map Branch.label ∧ ∀ b ∈ bs, t.Holds b := by
      intro ids
      induction ids with
      | nil => exact fun _ => ⟨[], rfl, nofun⟩
      | cons id ids ihs =>
        intro hsub
        have hid : id ∈ t.children x := hsub (by simp)
        obtain ⟨b, rfl, hb⟩ := ih id hid (hl.live hid)
        obtain ⟨bs, rfl, hbs⟩ := ihs fun y hy => hsub (List.mem_cons_of_mem _ hy)
        refine ⟨b :: bs, rfl, fun c hc => ?_⟩
        rcases List.mem_cons.1 hc with rfl | hc
        · exact hb
        · exact hbs c hc
    obtain ⟨bs, hbs, hholds⟩ := heach (t.children x) (fun _ h => h)
    exact ⟨.node x bs, rfl, .node hx hbs hholds⟩

end HostTree

end ReactiveTemplate
