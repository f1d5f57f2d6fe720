import Mathlib.Algebra.GroupWithZero.Nat
import ReactiveTemplate.Proofs.Document.Guards
import ReactiveTemplate.Proofs.Document.Lifetimes

/-!
# Counting nodes

How many nodes a document has, told by the subtrees that are added to it and taken away, and what
of a subtree stays as it is when something else changes.

* `HostTree.weight`, `HostTree.Sound.liveCount_splits`: the nodes of subtrees among all nodes.
* `HostTree.texts`, `HostTree.textWeight`: the texts that a node contains.
* `HostTree.Fixed`: a subtree that is not touched.
* `HostTree.Bare`: a subtree in which nodes with an attribute contain texts only.
* `HostTree.Refilled`, `HostTree.setText_refills`: what a new text does to all nodes and to their
  number. In a node that contained texts only it leaves nothing over.
-/

namespace ReactiveTemplate

namespace HostTree

variable {α : Type} {t t' t'' : HostTree α} {id p c o x y : NodeId} {name : String}

/-! ## Numbers of nodes -/

/-- The number of nodes in a subtree. -/
def weight (t : HostTree α) (id : NodeId) : Nat := (t.preorder id).length

/-- Documents with the same nodes have as many. -/
theorem Sound.liveCount_congr (h : t.Sound) (h' : t'.Sound) (hsame : ∀ y, t'.Live y ↔ t.Live y) :
    t'.liveCount = t.liveCount := by
  rw [h.liveCount_eq, h'.liveCount_eq]
  refine List.Perm.length_eq ((List.perm_ext_iff_of_nodup t'.nodup_ids t.nodup_ids).2 fun y => ?_)
  rw [mem_ids_iff, mem_ids_iff, hsame]

theorem live_modify_iff {change : Node α → Node α} : (t.modify id change).Live y ↔ t.Live y := by
  rw [Live, Live, node?_modify]
  split
  · next heq =>
    rw [heq]
    cases t.node? id <;> simp
  · rfl

/-- Subtrees apart have different nodes, and others than those outside of them. -/
theorem Sound.nodup_append_preorder (h : t.Sound) {ids cs : List NodeId} (hids : ids.Nodup)
    (hcs : cs.Nodup) (hc : ∀ c ∈ cs, t.Live c)
    (hapart : ∀ c ∈ cs, ∀ d ∈ cs, d ≠ c → ¬ t.Below c d)
    (hout : ∀ c ∈ cs, ∀ y ∈ ids, ¬ t.Below c y) : (ids ++ cs.flatMap t.preorder).Nodup := by
  have hmem : ∀ c ∈ cs, ∀ y, y ∈ t.preorder c ↔ t.Below c y := fun c hmem y =>
    h.mem_preorder (hc c hmem)
  have hall : (cs.flatMap t.preorder).Nodup := by
    refine List.nodup_flatMap.2 ⟨fun c hmem => h.tree.nodup_preorder (hc c hmem), ?_⟩
    refine hcs.imp_of_mem fun {c d} hcmem hdmem hne y hy hy' => ?_
    rw [hmem c hcmem] at hy
    rw [hmem d hdmem] at hy'
    rcases h.tree.linked.below_total hy hy' with hbelow | hbelow
    · exact hapart c hcmem d hdmem (Ne.symm hne) hbelow
    · exact hapart d hdmem c hcmem hne hbelow
  refine List.nodup_append.2 ⟨hids, hall, fun y hy z hz heq => ?_⟩
  obtain ⟨c, hcmem, hyc⟩ := List.mem_flatMap.1 (heq ▸ hz : y ∈ cs.flatMap t.preorder)
  exact hout c hcmem y hy ((hmem c hcmem y).1 hyc)

theorem length_append_preorder (ids cs : List NodeId) :
    (ids ++ cs.flatMap t.preorder).length = ids.length + (cs.map t.weight).sum := by
  rw [List.length_append, List.length_flatMap]
  rfl

/-- Subtrees more make as many nodes more as they have. -/
theorem Sound.liveCount_splits (h : t.Sound) (h' : t'.Sound) {cs : List NodeId} (hcs : cs.Nodup)
    (hc : ∀ c ∈ cs, t'.Live c) (hapart : ∀ c ∈ cs, ∀ d ∈ cs, d ≠ c → ¬ t'.Below c d)
    (hlive : ∀ y, t'.Live y ↔ t.Live y ∨ ∃ c ∈ cs, t'.Below c y)
    (hnew : ∀ c ∈ cs, ∀ y, t'.Below c y → ¬ t.Live y) :
    t'.liveCount = t.liveCount + (cs.map t'.weight).sum := by
  have hnodup : (t.ids ++ cs.flatMap t'.preorder).Nodup :=
    h'.nodup_append_preorder t.nodup_ids hcs hc hapart fun c hcmem y hy hbelow =>
      hnew c hcmem y hbelow (mem_ids_iff.1 hy)
  have hperm : t'.ids.Perm (t.ids ++ cs.flatMap t'.preorder) := by
    refine (List.perm_ext_iff_of_nodup t'.nodup_ids hnodup).2 fun y => ?_
    rw [List.mem_append, mem_ids_iff, mem_ids_iff, hlive, List.mem_flatMap]
    refine or_congr_right (exists_congr fun c => and_congr_right fun hcmem => ?_)
    exact (h'.mem_preorder (hc c hcmem)).symm
  rw [h'.liveCount_eq, hperm.length_eq, length_append_preorder, h.liveCount_eq]

/-- A document has at least the nodes of subtrees apart and those outside of them. -/
theorem Sound.le_liveCount (h : t.Sound) {ids cs : List NodeId} (hids : ids.Nodup) (hcs : cs.Nodup)
    (hc : ∀ c ∈ cs, t.Live c) (hapart : ∀ c ∈ cs, ∀ d ∈ cs, d ≠ c → ¬ t.Below c d)
    (hlive : ∀ y ∈ ids, t.Live y) (hout : ∀ c ∈ cs, ∀ y ∈ ids, ¬ t.Below c y) :
    ids.length + (cs.map t.weight).sum ≤ t.liveCount := by
  rw [h.liveCount_eq, ← length_append_preorder]
  refine (List.subperm_of_subset (h.nodup_append_preorder hids hcs hc hapart hout) ?_).length_le
  intro y hy
  rcases List.mem_append.1 hy with hy | hy
  · exact mem_ids_iff.2 (hlive y hy)
  · obtain ⟨c, hcmem, hyc⟩ := List.mem_flatMap.1 hy
    have hbelow := (h.mem_preorder (hc c hcmem)).1 hyc
    exact mem_ids_iff.2 (hbelow.live h.tree.linked (hc c hcmem))

/-- A subtree more makes as many nodes more as it has. -/
theorem Sound.liveCount_split (h : t.Sound) (h' : t'.Sound) (hc : t'.Live c)
    (hlive : ∀ y, t'.Live y ↔ t.Live y ∨ t'.Below c y) (hnew : ∀ y, t'.Below c y → ¬ t.Live y) :
    t'.liveCount = t.liveCount + t'.weight c := by
  have hsplit := h.liveCount_splits h' (List.nodup_singleton c)
  simp only [List.mem_singleton, forall_eq, exists_eq_left, List.map_singleton,
    List.sum_singleton] at hsplit
  exact hsplit hc (fun hne => absurd rfl hne) hlive hnew

/-- Destroying a node leaves the nodes that are not below it. -/
theorem Sound.live_destroy (h : t.Sound) (hc : t.Live c) (hroot : c ≠ root)
    (hdestroy : t.destroy c = .ok t') : t'.Live y ↔ t.Live y ∧ ¬ t.Below c y := by
  obtain ⟨t₁, hdestroy₁, hgone, hkept⟩ := h.destroys hc hroot
  obtain rfl : t₁ = t' := Except.ok.inj (hdestroy₁.symm.trans hdestroy)
  by_cases hbelow : t.Below c y
  · rw [Live, hgone y hbelow]
    simp [hbelow]
  · rw [Live, Live, hkept y hbelow]
    cases t.node? y <;> simp [hbelow]

/-- Destroying a node makes as many nodes fewer as its subtree has. -/
theorem Sound.liveCount_destroy (h : t.Sound) (hc : t.Live c) (hroot : c ≠ root)
    (hdestroy : t.destroy c = .ok t') : t.liveCount = t'.liveCount + t.weight c := by
  have hleft : ∀ y, t'.Live y ↔ t.Live y ∧ ¬ t.Below c y := fun _ => h.live_destroy hc hroot hdestroy
  refine (h.destroy hdestroy).liveCount_split h hc (fun y => ?_) fun y hy hlive => ?_
  · rw [hleft]
    by_cases hbelow : t.Below c y
    · exact iff_of_true (hbelow.live h.tree.linked hc) (.inr hbelow)
    · simp [hbelow]
  · exact ((hleft y).1 hlive).2 hy

/-- The nodes of a subtree are those of its shape. -/
theorem Draws.weight_eq (hl : t.Linked) {shape : Branch Figure} (h : t.Draws x shape) :
    t.weight x = shape.labels.length := by
  obtain ⟨b, hb, rfl, rfl⟩ := h
  rw [weight, hb.preorder hl, Branch.labels_map, List.length_map]

/-! ## Subtrees that are not touched -/

/-- All nodes of a subtree stay as they are, with the children they have. -/
def Fixed (t t' : HostTree α) (o : NodeId) : Prop :=
  ∀ y, t.Below o y → t'.content y = t.content y ∧ t'.children y = t.children y

namespace Fixed

theorem refl (t : HostTree α) (o : NodeId) : t.Fixed t o := fun _ _ => ⟨rfl, rfl⟩

/-- The subtree has the same nodes afterwards. -/
theorem below_iff (h : t.Fixed t' o) : t'.Below o y ↔ t.Below o y := by
  constructor
  · intro hbelow
    induction hbelow with
    | refl => exact Below.refl t o
    | @tail p c _ hc ih => exact ih.tail ((h p ih).2 ▸ hc)
  · intro hbelow
    induction hbelow with
    | refl => exact Below.refl t' o
    | @tail p c hp hc ih => exact ih.tail ((h p hp).2.symm ▸ hc)

theorem trans (h : t.Fixed t' o) (h' : t'.Fixed t'' o) : t.Fixed t'' o := by
  intro y hy
  obtain ⟨hcontent, hchildren⟩ := h y hy
  obtain ⟨hcontent', hchildren'⟩ := h' y (h.below_iff.2 hy)
  exact ⟨hcontent'.trans hcontent, hchildren'.trans hchildren⟩

theorem live (h : t.Fixed t' o) (ho : t.Live o) : t'.Live o :=
  ho.of_content (h o (Below.refl t o)).1

theorem draws {shape : Branch Figure} (h : t.Fixed t' o) (hdraws : t.Draws o shape) :
    t'.Draws o shape := by
  obtain ⟨b, hb, rfl, rfl⟩ := hdraws
  have hsame : ∀ y ∈ b.labels, t'.content y = t.content y ∧ t'.children y = t.children y :=
    fun y hy => h y (hb.mem_labels_iff.1 hy)
  refine ⟨b, hb.of_children (fun y hy => (hb.live hy).of_content (hsame y hy).1)
    (fun y hy => (hsame y hy).2), rfl, ?_⟩
  exact b.map_congr fun y hy => figure_eq_of_content_eq (hsame y hy).1

theorem weight_eq (h : t.Fixed t' o) (hs : t.Sound) (hs' : t'.Sound) (ho : t.Live o) :
    t'.weight o = t.weight o := by
  obtain ⟨b, rfl, hb⟩ := exists_holds hs.tree.linked hs.tree.acyclic ho
  have hdraws : t.Draws b.label (b.map t.figure) := ⟨b, hb, rfl, rfl⟩
  rw [hdraws.weight_eq hs.tree.linked, (h.draws hdraws).weight_eq hs'.tree.linked]

/-- Beside all nodes every subtree stays. -/
theorem beside (hl : t.Linked) (h : Beside t.Live t t') (ho : t.Live o) : t.Fixed t' o := by
  intro y hy
  have hsame := h.same y (hy.live hl ho)
  exact ⟨content_eq_of_node?_eq hsame, children_eq_of_node?_eq hsame⟩

/-- A change of a node elsewhere. -/
theorem modify (hid : ¬ t.Below o id) (change : Node α → Node α) : t.Fixed (t.modify id change) o := by
  intro y hy
  have hsame : (t.modify id change).node? y = t.node? y := by
    refine node?_modify_of_ne ?_ change
    rintro rfl
    exact hid hy
  exact ⟨content_eq_of_node?_eq hsame, children_eq_of_node?_eq hsame⟩

/-- A node elsewhere is destroyed. -/
theorem removed (h : t.Removed t' c) (hout : ∀ y, t.Below o y → ¬ t.Below c y)
    (hin : ¬ t.Below o c) : t.Fixed t' o := by
  intro y hy
  refine ⟨h.content y (hout y hy), ?_⟩
  rw [h.children y (hout y hy), filter_eq_flatMap_swap]
  exact flatMap_swap_of_not_mem fun hc => hin (hy.tail hc)

/-- Other nodes come into the place of one elsewhere. -/
theorem swapped {old : NodeId} {new : List NodeId} (h : t.Swapped t' old new)
    (hold : ∀ y, t.Below o y → old ∉ t.children y) : t.Fixed t' o := by
  intro y hy
  refine ⟨h.content y, ?_⟩
  rw [h.children, flatMap_swap_of_not_mem (hold y hy)]

end Fixed

/-! ## Texts -/

/-- The texts among the children of a node. -/
def texts (t : HostTree α) (id : NodeId) : List NodeId :=
  (t.children id).filter fun c => (t.figure c).kind = .text

/-- The number of nodes in the texts that a node contains. -/
def textWeight (t : HostTree α) (id : NodeId) : Nat := ((t.texts id).map t.weight).sum

theorem mem_texts : c ∈ t.texts id ↔ c ∈ t.children id ∧ (t.figure c).kind = .text := by
  simp [texts]

theorem textWeight_congr (hs : t.Sound) (hs' : t'.Sound) (htexts : t'.texts id = t.texts id)
    (hfixed : ∀ c ∈ t.texts id, t.Fixed t' c) : t'.textWeight id = t.textWeight id := by
  rw [textWeight, htexts, textWeight]
  refine congrArg List.sum (List.map_congr_left fun c hc => ?_)
  exact (hfixed c hc).weight_eq hs hs' (hs.tree.linked.live (mem_texts.1 hc).1)

/-- Where a node keeps its children and these their kinds, it keeps its texts. -/
theorem texts_congr (hchildren : t'.children id = t.children id)
    (hkind : ∀ c ∈ t.children id, (t'.figure c).kind = (t.figure c).kind) :
    t'.texts id = t.texts id := by
  rw [texts, hchildren]
  exact List.filter_congr fun c hc => by rw [hkind c hc]

/-- A change of place of nodes that are no texts leaves the texts. -/
theorem Swapped.texts {old : NodeId} {new : List NodeId} (h : t.Swapped t' old new)
    (hold : (t.figure old).kind ≠ .text) (hnew : ∀ c ∈ new, (t.figure c).kind ≠ .text) :
    t'.texts id = t.texts id := by
  have hfigure : t'.figure = t.figure := funext fun y => figure_eq_of_content_eq (h.content y)
  rw [HostTree.texts, h.children, hfigure, HostTree.texts]
  induction t.children id with
  | nil => rfl
  | cons x xs ih =>
    rw [List.flatMap_cons, List.filter_append, ih]
    by_cases hx : x = old
    · have hnone : new.filter (fun c => (t.figure c).kind = .text) = [] :=
        List.filter_eq_nil_iff.2 fun c hc => by simpa using hnew c hc
      rw [hx, swap_self, hnone, List.nil_append, List.filter_cons_of_neg (by simpa using hold)]
    · rw [swap_of_ne hx, ← List.filter_append, List.singleton_append]

/-- Where another node is destroyed, a node keeps its texts. -/
theorem Removed.texts (h : t.Removed t' c) (hid : ¬ t.Below c id) (hl : t.Linked)
    (hc : (t.figure c).kind ≠ .text) : t'.texts id = t.texts id := by
  rw [HostTree.texts, h.children id hid, List.filter_filter, HostTree.texts]
  refine List.filter_congr fun d hd => ?_
  by_cases hne : d = c
  · rw [hne]
    simpa using hc
  · have hout : ¬ t.Below c d := by
      intro hbelow
      obtain ⟨q, hq, hcq⟩ := hl.below_parent hbelow hne
      rw [hl.child hd, Option.some.injEq] at hq
      exact hid (hq ▸ hcq)
    rw [figure_eq_of_content_eq (h.content d hout)]
    simp [hne]

/-- A node is below a text of another one, or it is clear of them. -/
theorem not_clearOf_iff (hl : t.Linked) :
    ¬ t.ClearOf (t.children id) y ↔ ∃ c ∈ t.texts id, t.Below c y := by
  simp only [ClearOf, not_forall, not_not, mem_texts]
  constructor
  · rintro ⟨c, hc, n, hn, htext, hbelow⟩
    exact ⟨c, ⟨hc, by rw [figure_of_node? hn]; exact htext⟩, hbelow⟩
  · rintro ⟨c, ⟨hc, htext⟩, hbelow⟩
    obtain ⟨n, hn⟩ := hl.live hc
    rw [figure_of_node? hn] at htext
    exact ⟨c, hc, n, hn, htext, hbelow⟩

/-! ## Texts below nodes with an attribute -/

theorem attribute?_eq_figure (t : HostTree α) (x : NodeId) (name : String) :
    t.attribute? x name = (t.figure x).attributes.get? name := by
  rw [attribute?, figure]
  cases t.node? x <;> rfl

theorem attribute?_update {change : Node α → Node α} (hupdate : t.update id change = .ok t')
    (hattributes : ∀ n, (change n).attributes = n.attributes) (x : NodeId) (name : String) :
    t'.attribute? x name = t.attribute? x name := by
  rw [eq_modify_of_update hupdate, attribute?, attribute?, node?_modify]
  split
  · next heq =>
    rw [heq]
    cases t.node? id with
    | none => rfl
    | some n => exact congrArg (Fields.get? · name) (hattributes n)
  · rfl

/-- Below a node, the nodes with an attribute contain texts only. -/
def Bare (t : HostTree α) (name : String) (x : NodeId) : Prop :=
  ∀ y, t.Below x y → (t.attribute? y name).isSome → ∀ c ∈ t.children y, (t.figure c).kind = .text

theorem Bare.congr (h : t.Bare name x) (hchildren : ∀ y, t.Below x y → t'.children y = t.children y)
    (hkind : ∀ y, t.Below x y → (t'.figure y).kind = (t.figure y).kind)
    (hattribute : ∀ y, t.Below x y → t'.attribute? y name = t.attribute? y name) :
    t'.Bare name x := by
  have hbelow : ∀ y, t'.Below x y → t.Below x y := by
    intro y hy
    induction hy with
    | refl => exact Below.refl t x
    | @tail p c _ hc ih => exact ih.tail (hchildren p ih ▸ hc)
  intro y hy hsome c hc
  have hy' := hbelow y hy
  rw [hattribute y hy'] at hsome
  rw [hchildren y hy'] at hc
  rw [hkind c (hy'.tail hc)]
  exact h y hy' hsome c hc

theorem Bare.of_figure (h : t.Bare name x)
    (hchildren : ∀ y, t.Below x y → t'.children y = t.children y)
    (hfigure : ∀ y, t.Below x y → t'.figure y = t.figure y) : t'.Bare name x := by
  refine h.congr hchildren (fun y hy => by rw [hfigure y hy]) fun y hy => ?_
  rw [attribute?_eq_figure, attribute?_eq_figure, hfigure y hy]

theorem Bare.fixed (h : t.Bare name x) (hfixed : t.Fixed t' x) : t'.Bare name x :=
  h.of_figure (fun y hy => (hfixed y hy).2) fun y hy => figure_eq_of_content_eq (hfixed y hy).1

end HostTree

/-- The same of a shape. -/
inductive Branch.Bare (name : String) : Branch Figure → Prop
  | node {f : Figure} {bs : List (Branch Figure)} :
    ((f.attributes.get? name).isSome → ∀ x ∈ bs, x.label.kind = .text) →
    (∀ x ∈ bs, Bare name x) → Bare name (.node f bs)

namespace HostTree

variable {α : Type} {t t' : HostTree α} {id p c o x y : NodeId} {name : String}

/-- Whether nodes contain texts only is told by the shape. -/
theorem Holds.bare_iff {b : Branch NodeId} (hb : t.Holds b) :
    t.Bare name b.label ↔ (b.map t.figure).Bare name := by
  induction b using Branch.induction with
  | h id bs ih =>
    obtain @⟨_, _, -, hchildren, hbs⟩ := hb
    have hmem : ∀ d ∈ bs, d.label ∈ t.children id := fun d hd =>
      hchildren ▸ List.mem_map_of_mem hd
    rw [Branch.map_node]
    constructor
    · intro h
      refine .node (fun hattribute x hx => ?_) fun x hx => ?_
      · obtain ⟨d, hd, rfl⟩ := List.mem_map.1 hx
        rw [Branch.label_map]
        exact h id (Below.refl t id) (t.attribute?_eq_figure id name ▸ hattribute) _ (hmem d hd)
      · obtain ⟨d, hd, rfl⟩ := List.mem_map.1 hx
        refine (ih d hd (hbs d hd)).1 fun y hy => h y ?_
        exact Relation.ReflTransGen.head (hmem d hd) hy
    · rintro @⟨_, _, htexts, hbelow⟩ y hy hattribute c hc
      rcases Relation.ReflTransGen.cases_head hy with rfl | ⟨z, hz, hzy⟩
      · rw [show (Branch.node id bs).label = id from rfl] at hattribute hc
        rw [hchildren] at hc
        obtain ⟨d, hd, rfl⟩ := List.mem_map.1 hc
        rw [← Branch.label_map t.figure d]
        exact htexts (t.attribute?_eq_figure id name ▸ hattribute) _ (List.mem_map_of_mem hd)
      · rw [show (Branch.node id bs).label = id from rfl, hchildren] at hz
        obtain ⟨d, hd, rfl⟩ := List.mem_map.1 hz
        exact (ih d hd (hbs d hd)).2 (hbelow _ (List.mem_map_of_mem hd)) y hzy hattribute c hc

/-- A copy contains texts only where the copied subtree does. -/
theorem Copied.bare {b c : Branch NodeId} (hb : t.Holds b) (h : t.Copied t' b c)
    (hbare : t.Bare name b.label) : t'.Bare name c.label := by
  rw [h.holds.bare_iff, h.shape]
  exact hb.bare_iff.1 hbare

/-! ## New texts -/

/-- What a new text does to the nodes of a document and to their number. -/
structure Refilled (t t' : HostTree α) (id : NodeId) : Prop where
  kind : (t'.figure id).kind = (t.figure id).kind
  texts : ∀ c ∈ t'.children id, (t'.figure c).kind = .text ∨ c ∈ t.children id
  same : ∀ y, t.Live y → t'.Live y → y ≠ id →
    t'.content y = t.content y ∧ t'.children y = t.children y
  live : ∀ y, t.Live y → t.ClearOf (t.children id) y → t'.Live y
  /-- A node that was not there is the new text. -/
  new : ∀ y, t'.Live y → ¬ t.Live y →
    y ∈ t'.children id ∧ t'.children y = [] ∧ ∀ name, t'.attribute? y name = none
  old : ∀ y ∈ t'.children id, t.Live y → y ∈ t.children id
  /-- Where the node contained texts only, no node is left over without its place. -/
  whole : (∀ c ∈ t.children id, (t.figure c).kind = .text) →
    ∀ x y, t.Below x y → t'.Live y → t'.Below x y
  count : t'.liveCount + t.textWeight id = t.liveCount + t'.textWeight id

/-- A name that has died on the way means nothing afterwards but the node it meant before. -/
theorem not_live_of_dead (hdropped : EachSlot SlotEmptied t t') (hfilled : EachSlot SlotFilled t' t'')
    (hdead : t'.node? y = none) (hy : t''.Live y) : ¬ t.Live y := by
  intro hlive
  obtain ⟨slot, hslot, hgen, hnode⟩ := live_iff_slot.1 hlive
  obtain ⟨slot', hslot', hstep⟩ := hdropped y.index slot hslot
  obtain ⟨slot'', hslot'', hgen'', -⟩ := hfilled y.index slot' hslot'
  obtain ⟨slot₁, hslot₁, hgen₁, -⟩ := live_iff_slot.1 hy
  obtain rfl : slot'' = slot₁ := Option.some.inj (hslot''.symm.trans hslot₁)
  rcases hstep with ⟨hgen', hnode'⟩ | ⟨hgen', -⟩
  · have halive : t'.Live y :=
      live_iff_slot.2 ⟨slot', hslot', hgen'.trans hgen, hnode'.trans hnode⟩
    obtain ⟨n, hn⟩ := halive
    rw [hdead] at hn
    cases hn
  · rw [hgen₁, hgen', hgen] at hgen''
    have hone := congrArg UInt32.toBitVec hgen''
    simp at hone

/-- A new text below a node without children is one more node. -/
theorem TextAdded.count {leaf : NodeId} {text : String} (ha : t.TextAdded t' id leaf text)
    (hs : t.Sound) (hs' : t'.Sound) : t'.liveCount = t.liveCount + t'.textWeight id := by
  have hleaf : t'.children leaf = [] := children_of_node? ha.added
  have hdead : ¬ t.Live leaf := not_live_iff.2 ha.fresh
  have hbelow : ∀ y, t'.Below leaf y ↔ y = leaf := by
    refine fun y => ⟨fun hbelow => ?_, fun heq => heq ▸ Below.refl t' leaf⟩
    by_contra hne
    exact not_below_of_children_nil hleaf hne hbelow
  have hsplit : t'.liveCount = t.liveCount + t'.weight leaf := by
    refine hs.liveCount_split hs' ⟨_, ha.added⟩ (fun y => ?_) fun y hy => ?_
    · rw [hbelow]
      by_cases hyleaf : y = leaf
      · exact iff_of_true (hyleaf ▸ ⟨_, ha.added⟩) (.inr hyleaf)
      · rw [or_iff_left hyleaf]
        have hcontent := ha.content y hyleaf
        exact ⟨fun hy => hy.of_content hcontent.symm, fun hy => hy.of_content hcontent⟩
    · rw [(hbelow y).1 hy]
      exact hdead
  have htext : t'.textWeight id = t'.weight leaf := by
    have hkind : (t'.figure leaf).kind = .text := by
      rw [figure_of_node? ha.added]
      rfl
    rw [HostTree.textWeight, HostTree.texts, ha.children, if_pos rfl, List.filter_singleton]
    simp [hkind]
  rw [hsplit, htext]

namespace Stripped

/-- Nothing is added. -/
theorem live_of (h : t.Stripped t' id) (hy : t'.Live y) : t.Live y := by
  have hclear : t.ClearOf (t.children id) y := by_contra fun hclear => h.gone y hclear hy
  exact hy.of_content (h.same y hclear).1.symm

theorem content_eq (h : t.Stripped t' id) (hy : t'.Live y) : t'.content y = t.content y :=
  (h.same y (by_contra fun hclear => h.gone y hclear hy)).1

theorem children_eq (h : t.Stripped t' id) (hy : t'.Live y) (hne : y ≠ id) :
    t'.children y = t.children y :=
  (h.same y (by_contra fun hclear => h.gone y hclear hy)).2.2 hne

theorem whole (h : t.Stripped t' id) (htexts : ∀ c ∈ t.children id, (t.figure c).kind = .text)
    (hl : t.Linked) (hx : t.Below x y) (hy : t'.Live y) : t'.Below x y := by
  have hnot : ∀ c ∈ t.children id, ¬ t.Below c y := fun c hc hbelow =>
    h.gone y ((not_clearOf_iff hl).2 ⟨c, mem_texts.2 ⟨hc, htexts c hc⟩, hbelow⟩) hy
  clear hy
  induction hx with
  | refl => exact Below.refl _ x
  | @tail p d _ hd ih =>
    have hnotp : ∀ c ∈ t.children id, ¬ t.Below c p := fun c hc hcp => hnot c hc (hcp.tail hd)
    have hne : p ≠ id := by
      rintro rfl
      exact hnot d hd (Below.refl t d)
    have hclear : t.ClearOf (t.children id) p := fun c hc _ _ _ hbelow => hnotp c hc hbelow
    exact (ih hnotp).tail (((h.same p hclear).2.2 hne).symm ▸ hd)

/-- The nodes of the texts are gone. -/
theorem count (h : t.Stripped t' id) (hs : t.Sound) :
    t.liveCount = t'.liveCount + t.textWeight id := by
  have hl := hs.tree.linked
  refine h.sound.liveCount_splits hs ((hl.nodup id).filter _)
    (fun c hc => hl.live (mem_texts.1 hc).1)
    (fun c hc d hd hne => hs.tree.siblings_apart (mem_texts.1 hc).1 (mem_texts.1 hd).1 hne.symm)
    (fun y => ?_) fun c hc y hbelow => h.gone y ((not_clearOf_iff hl).2 ⟨c, hc, hbelow⟩)
  by_cases hclear : t.ClearOf (t.children id) y
  · have hnone : ¬ ∃ c ∈ t.texts id, t.Below c y := fun hex => (not_clearOf_iff hl).2 hex hclear
    rw [or_iff_left hnone]
    have hcontent := (h.same y hclear).1
    exact ⟨fun hy => hy.of_content hcontent, fun hy => hy.of_content hcontent.symm⟩
  · obtain ⟨c, hc, hbelow⟩ := (not_clearOf_iff hl).1 hclear
    exact iff_of_true (hbelow.live hl (hl.live (mem_texts.1 hc).1)) (.inr ⟨c, hc, hbelow⟩)

theorem textWeight (h : t.Stripped t' id) : t'.textWeight id = 0 := by
  rw [HostTree.textWeight, HostTree.texts, h.empty]
  rfl

/-- A node that contains nothing any more. -/
theorem refilled (h : t.Stripped t' id) (hs : t.Sound) : t.Refilled t' id where
  kind := congrArg Figure.kind (figure_eq_of_content_eq (h.content_eq h.live))
  texts c hc := by
    rw [h.empty] at hc
    cases hc
  same y _ hy hne := ⟨h.content_eq hy, h.children_eq hy hne⟩
  live y hy hclear := hy.of_content (h.same y hclear).1
  new y hy hnot := absurd (h.live_of hy) hnot
  old y hy := by
    rw [h.empty] at hy
    cases hy
  whole htexts x y hx hy := h.whole htexts hs.tree.linked hx hy
  count := by rw [h.count hs, h.textWeight, Nat.add_zero]

/-- A node that contains a new text. -/
theorem filled (h : t.Stripped t' id) (hs : t.Sound) (hslots : EachSlot SlotEmptied t t')
    (text : String) (hs' : (t'.appendText id text).2.Sound) :
    t.Refilled (t'.appendText id text).2 id := by
  obtain ⟨leaf, ha⟩ := appendText_spec h.sound.tree.linked h.live h.empty text
  let t'' := (t'.appendText id text).2
  have hnew : ¬ t.Live leaf :=
    not_live_of_dead hslots (filled_append t' id _) ha.fresh ⟨_, ha.added⟩
  have hdead : ¬ t'.Live leaf := not_live_iff.2 ha.fresh
  have hother : ∀ y, t''.Live y → y ≠ leaf → t'.Live y := fun y hy hne =>
    hy.of_content (ha.content y hne).symm
  have hid : id ≠ leaf := by
    rintro rfl
    exact hdead h.live
  have hchildren : t''.children id = [leaf] := by
    rw [ha.children, if_pos rfl]
  have hleaf : t''.children leaf = [] := children_of_node? ha.added
  have hkind : (t''.figure leaf).kind = .text := by
    rw [figure_of_node? ha.added]
    rfl
  constructor
  case kind =>
    rw [figure_eq_of_content_eq (ha.content id hid), figure_eq_of_content_eq (h.content_eq h.live)]
  case texts =>
    intro c hc
    rw [hchildren, List.mem_singleton] at hc
    rw [hc]
    exact .inl hkind
  case same =>
    intro y hlive hy hne
    have hyleaf : y ≠ leaf := fun heq => hnew (heq ▸ hlive)
    have hy' := hother y hy hyleaf
    refine ⟨(ha.content y hyleaf).trans (h.content_eq hy'), ?_⟩
    rw [ha.children, if_neg hne, h.children_eq hy' hne]
  case live =>
    intro y hy hclear
    have hy' : t'.Live y := hy.of_content (h.same y hclear).1
    exact hy'.of_content (ha.content y fun heq => hdead (heq ▸ hy'))
  case new =>
    intro y hy hnot
    have hyleaf : y = leaf := by_contra fun hne => hnot (h.live_of (hother y hy hne))
    rw [hyleaf]
    refine ⟨by rw [hchildren]; exact List.mem_singleton_self leaf, hleaf, fun name => ?_⟩
    rw [attribute?, ha.added]
    rfl
  case old =>
    intro y hy hlive
    rw [hchildren, List.mem_singleton] at hy
    exact absurd (hy ▸ hlive) hnew
  case whole =>
    intro htexts x y hx hy
    by_cases hyleaf : y = leaf
    · rcases Relation.ReflTransGen.cases_tail hx with rfl | ⟨p, -, hp⟩
      · exact Below.refl _ y
      · exact absurd (hyleaf ▸ hs.tree.linked.live hp) hnew
    · have hbelow := h.whole htexts hs.tree.linked hx (hother y hy hyleaf)
      refine Below.mono (fun q z (hz : z ∈ t'.children q) => ?_) hbelow
      rw [ha.children]
      split
      · next heq =>
        rw [heq, h.empty] at hz
        cases hz
      · exact hz
  case count =>
    rw [ha.count h.sound hs', h.count hs]
    omega

end Stripped

/-- Other data in a node that has no content of its own. -/
theorem Refilled.modify (h : t.Sound) (hid : t.Live id) (text : String) :
    t.Refilled (t.modify id fun n => { n with data := text }) id := by
  let t' := t.modify id fun n => { n with data := text }
  have hs' : t'.Sound := h.touch id (fun _ => rfl) fun _ => rfl
  obtain ⟨n, hn⟩ := hid
  have hself : t'.node? id = some { n with data := text } := by
    rw [node?_modify_self, hn]
    rfl
  have hother : ∀ y, y ≠ id → t'.node? y = t.node? y := fun y hy => node?_modify_of_ne hy _
  have hchildren : ∀ q, t'.children q = t.children q := by
    intro q
    by_cases hq : q = id
    · rw [hq, children_of_node? hself, children_of_node? hn]
    · exact children_eq_of_node?_eq (hother q hq)
  have hlive : ∀ y, t'.Live y ↔ t.Live y := fun y => live_modify_iff
  have hbelow : ∀ c ∈ t.children id, ¬ t.Below c id := fun c hc => h.tree.acyclic.not_below hc
  constructor
  case kind =>
    rw [figure_of_node? hself, figure_of_node? hn]
    rfl
  case texts => exact fun c hc => .inr (hchildren id ▸ hc)
  case same =>
    intro y _ _ hne
    exact ⟨content_eq_of_node?_eq (hother y hne), hchildren y⟩
  case live => exact fun y hy _ => (hlive y).2 hy
  case new => exact fun y hy hnot => absurd ((hlive y).1 hy) hnot
  case old => exact fun y hy _ => hchildren id ▸ hy
  case whole => exact fun _ x y hx _ => Below.mono (fun q z hz => hchildren q ▸ hz) hx
  case count =>
    have htexts : t'.texts id = t.texts id := by
      refine texts_congr (hchildren id) fun c hc => ?_
      rw [figure_eq_of_node?_eq (hother c fun heq => hbelow c hc (heq ▸ Below.refl t c))]
    have hweight : t'.textWeight id = t.textWeight id :=
      textWeight_congr h hs' htexts fun c hc => .modify (hbelow c (mem_texts.1 hc).1) _
    rw [hweight, h.liveCount_congr hs' hlive]

/-- A new text. -/
theorem setText_refills (h : t.Sound) {text : String} (hset : t.setText id text = .ok t') :
    t.Refilled t' id := by
  have hs' := h.setText hset
  obtain ⟨n, hn, ⟨-, rfl⟩ | rfl⟩ := setText_cases hset
  · have hstrip := h.strip ⟨n, hn⟩
    split at hs'
    · next htext =>
      rw [if_pos htext]
      exact hstrip.refilled h
    · next htext =>
      rw [if_neg htext]
      exact hstrip.filled h (emptied_strip t id) text hs'
  · exact Refilled.modify h ⟨n, hn⟩ text

namespace Refilled

/-- The nodes that were there have the places they had. -/
theorem of_below (h : t.Refilled t' id) (hl' : t'.Linked) (hbelow : t'.Below x y) (hy : t.Live y)
    (hx : t'.Live x) : t.Below x y := by
  induction hbelow with
  | refl => exact Below.refl t x
  | @tail p d hp hd ih =>
    have hlive' : t'.Live p := Below.live hl' hx hp
    by_cases hlive : t.Live p
    · refine (ih hlive).tail ?_
      by_cases hid : p = id
      · exact hid ▸ h.old d (hid ▸ hd) hy
      · exact (h.same p hlive hlive' hid).2 ▸ hd
    · rw [(h.new p hlive' hlive).2.1] at hd
      cases hd

theorem kind_eq (h : t.Refilled t' id) (hy : t.Live y) (hy' : t'.Live y) :
    (t'.figure y).kind = (t.figure y).kind := by
  by_cases hne : y = id
  · rw [hne]
    exact h.kind
  · rw [figure_eq_of_content_eq (h.same y hy hy' hne).1]

/-- Nodes with an attribute still contain texts only. -/
theorem bare (h : t.Refilled t' id) (hl : t.Linked) (hl' : t'.Linked) (hx : t'.Live x)
    (htexts : ∀ c ∈ t.children id, (t.figure c).kind = .text) (hbare : t.Bare name x) :
    t'.Bare name x := by
  intro y hy hattribute c hc
  have hlive' : t'.Live y := hy.live hl' hx
  by_cases hid : y = id
  · rcases h.texts c (hid ▸ hc) with htext | hold
    · exact htext
    · rw [h.kind_eq (hl.live hold) (hl'.live hc)]
      exact htexts c hold
  by_cases hlive : t.Live y
  · obtain ⟨hcontent, hchildren⟩ := h.same y hlive hlive' hid
    have hold := hchildren ▸ hc
    rw [h.kind_eq (hl.live hold) (hl'.live hc)]
    rw [attribute?_eq_figure, figure_eq_of_content_eq hcontent, ← attribute?_eq_figure] at hattribute
    exact hbare y (h.of_below hl' hy hlive hx) hattribute c hold
  · rw [(h.new y hlive' hlive).2.2] at hattribute
    cases hattribute

/-- A subtree that is clear of the texts of the node and does not contain it is not touched. -/
theorem fixed (h : t.Refilled t' id) (hs : t.Sound) (ho : t.Live o)
    (hclear : t.ClearOf (t.children id) o) (hout : ¬ t.Below o id) : t.Fixed t' o := by
  have hl := hs.tree.linked
  intro y hy
  have hlive := hy.live hl ho
  have hcleary : t.ClearOf (t.children id) y := by
    intro c hc n hn htext hcy
    rcases hl.below_total hy hcy with hoc | hco
    · rcases Relation.ReflTransGen.cases_tail hoc with rfl | ⟨q, hq, hcq⟩
      · exact hclear c hc n hn htext (Below.refl t c)
      · have hparent := (hl.child hcq).symm.trans (hl.child hc)
        exact hout (Option.some.inj hparent ▸ hq)
    · exact hclear c hc n hn htext hco
  have hne : y ≠ id := by
    rintro rfl
    exact hout hy
  exact h.same y hlive (h.live y hlive hcleary) hne

end Refilled

end HostTree

end ReactiveTemplate
