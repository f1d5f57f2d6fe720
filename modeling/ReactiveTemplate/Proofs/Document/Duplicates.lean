import Mathlib.Data.Set.Card
import ReactiveTemplate.Proofs.Document.Counts
import ReactiveTemplate.Proofs.Document.Histories
import ReactiveTemplate.Proofs.Document.Queries

/-!
# Duplicates

A copy of a subtree has a node for each node of the subtree. The new names say where a node went:
a renaming of the subtree, which the copy is apart from the listeners.

* `Branch.exists_map_eq`: trees of one shape are renamings of each other.
* `HostTree.Duplicated`: a renaming of a subtree to new nodes, and nothing else.
* `HostTree.Copied.duplicated`: a copy of the shape of a subtree is a renaming of it.
* `HostTree.cloneNode_duplicates`: what copying a node does.
-/

namespace ReactiveTemplate

namespace Branch

variable {β γ δ : Type}

theorem exists_map_eq_list {g : γ → δ} {h : β → δ} :
    ∀ {bs : List (Branch β)} {cs : List (Branch γ)},
      (∀ b ∈ bs, ∀ c : Branch γ, c.map g = b.map h → ∃ f : β → γ, c = b.map f) →
      (bs.flatMap labels).Nodup → cs.map (map g) = bs.map (map h) → Nonempty γ →
        ∃ f : β → γ, cs = bs.map (map f) := by
  classical
  intro bs
  induction bs with
  | nil =>
    intro cs _ _ hmap ⟨d⟩
    rw [List.map_nil, List.map_eq_nil_iff] at hmap
    exact ⟨fun _ => d, hmap⟩
  | cons b bs ih =>
    intro cs heach hnodup hmap hd
    rw [List.flatMap_cons, List.nodup_append] at hnodup
    obtain ⟨-, hrest, hapart⟩ := hnodup
    cases cs with
    | nil => cases hmap
    | cons c cs =>
      rw [List.map_cons, List.map_cons, List.cons.injEq] at hmap
      obtain ⟨f, hf⟩ := heach b List.mem_cons_self c hmap.1
      obtain ⟨f', hf'⟩ := ih (fun d hd => heach d (List.mem_cons_of_mem _ hd)) hrest hmap.2 hd
      refine ⟨fun x => if x ∈ b.labels then f x else f' x, ?_⟩
      rw [List.map_cons, List.cons.injEq]
      constructor
      · rw [hf]
        exact b.map_congr fun x hx => (if_pos hx).symm
      · rw [hf']
        refine List.map_congr_left fun d hd => d.map_congr fun x hx => (if_neg fun hxb => ?_).symm
        exact hapart x hxb x (List.mem_flatMap.2 ⟨d, hd, hx⟩) rfl

/-- A tree of the shape of another one, whose labels are all different, is a renaming of it. -/
theorem exists_map_eq {g : γ → δ} {h : β → δ} {b : Branch β} :
    ∀ {c : Branch γ}, c.map g = b.map h → b.labels.Nodup → ∃ f : β → γ, c = b.map f := by
  classical
  induction b using induction with
  | h x bs ih =>
    rintro ⟨y, cs⟩ hshape hnodup
    rw [map_node, map_node, node.injEq] at hshape
    rw [labels_node, List.nodup_cons] at hnodup
    obtain ⟨hx, hnodup⟩ := hnodup
    obtain ⟨f, hf⟩ := exists_map_eq_list (fun b hb c hc => ih b hb hc
      ((List.nodup_flatMap.1 hnodup).1 b hb)) hnodup hshape.2 ⟨y⟩
    refine ⟨fun z => if z = x then y else f z, ?_⟩
    rw [map_node, if_pos rfl, hf, node.injEq]
    refine ⟨rfl, List.map_congr_left fun d hd => d.map_congr fun z hz => (if_neg ?_).symm⟩
    rintro rfl
    exact hx (List.mem_flatMap.2 ⟨d, hd, hz⟩)

end Branch

namespace HostTree

variable {α : Type} {t t' : HostTree α} {id copy y : NodeId} {f : NodeId → NodeId}
  {b : Branch NodeId}

/-- A renamed subtree has the renamed children. -/
theorem Holds.children_map (h : t.Holds b) (h' : t'.Holds (b.map f)) (hy : y ∈ b.labels) :
    t'.children (f y) = (t.children y).map f := by
  induction h with
  | @node id bs _ hchildren _ ih =>
    rw [Branch.map_node] at h'
    obtain @⟨_, _, -, hchildren', hbelow'⟩ := h'
    rw [Branch.labels_node] at hy
    rcases List.mem_cons.1 hy with rfl | hy
    · rw [hchildren', hchildren, List.map_map, List.map_map]
      exact List.map_congr_left fun d _ => d.label_map f
    · obtain ⟨d, hd, hyd⟩ := List.mem_flatMap.1 hy
      exact ih d hd (hbelow' _ (List.mem_map_of_mem hd)) hyd

/-- The subtree of a node was copied: its nodes were renamed to nodes that did not exist, and
    nothing else has changed. -/
structure Duplicated (t t' : HostTree α) (id copy : NodeId) (f : NodeId → NodeId) : Prop where
  sound : t'.Sound
  top : f id = copy
  loose : t'.parent? copy = none
  injective : Set.InjOn f {y | t.Below id y}
  onto : ∀ z, t'.Below copy z ↔ ∃ y, t.Below id y ∧ f y = z
  /-- A node of the copy is the node it was copied from, with the copies of its children, and
      without its listeners. -/
  node : ∀ y n, t.Below id y → t.node? y = some n → t'.node? (f y) = some
    { n with
      parent := if y = id then none else n.parent.map f
      children := n.children.map f
      listeners := [] }
  order : t'.documentOrder t'.slots.size copy = (t.documentOrder t.slots.size id).map f
  fresh : ∀ y, t.Below id y → ¬ t.Live (f y)
  kept : ∀ y, t.Live y → t'.node? y = t.node? y
  whole : ∀ z, t'.Live z → t.Live z ∨ t'.Below copy z
  count : t'.liveCount = t.liveCount + {y | t.Below id y}.ncard

theorem weight_eq_ncard (ht : t.Tree) (hid : t.Live id) :
    t.weight id = {y | t.Below id y}.ncard := by
  obtain ⟨b, rfl, hb⟩ := exists_holds ht.linked ht.acyclic hid
  have hset : {y | t.Below b.label y} = (b.labels.toFinset : Set NodeId) := by
    ext y
    rw [List.coe_toFinset]
    exact hb.mem_labels_iff.symm
  rw [hset, Set.ncard_coe_finset, List.toFinset_card_of_nodup (hb.nodup ht.linked), weight,
    hb.preorder ht.linked]

theorem Holds.mem_labels_map (hb : t.Holds b) (f : NodeId → NodeId) (hy : t.Below b.label y) :
    f y ∈ (b.map f).labels := by
  rw [b.labels_map]
  exact List.mem_map_of_mem (hb.mem_labels_iff.2 hy)

namespace Copied

variable (hb : t.Holds b) (hcopy : t.Copied t' b (b.map f))

include hb hcopy

theorem figure_map (hy : t.Below b.label y) : t'.figure (f y) = t.figure y := by
  have hlabels := congrArg Branch.labels hcopy.shape
  rw [b.map_map, b.labels_map, b.labels_map, List.map_inj_left] at hlabels
  exact hlabels y (hb.mem_labels_iff.2 hy)

theorem children_map (hy : t.Below b.label y) : t'.children (f y) = (t.children y).map f :=
  hb.children_map hcopy.holds (hb.mem_labels_iff.2 hy)

theorem parent?_map (ht : t.Tree) (hy : t.Below b.label y) :
    t'.parent? (f y) = if y = b.label then none else (t.parent? y).map f := by
  split
  · next htop =>
    rw [htop, ← b.label_map f]
    exact hcopy.loose
  · next hne =>
    obtain ⟨p, hp, hbelow⟩ := ht.linked.below_parent hy hne
    rw [hp]
    refine hcopy.linked.child ?_
    rw [hcopy.children_map hb hbelow]
    exact List.mem_map_of_mem (ht.listed hp)

/-- The node behind a new name. -/
theorem node?_map (ht : t.Tree) (hy : t.Below b.label y) {n : Node α} (hn : t.node? y = some n) :
    t'.node? (f y) = some
      { n with
        parent := if y = b.label then none else n.parent.map f
        children := n.children.map f
        listeners := [] } := by
  obtain ⟨m, hm⟩ := hcopy.holds.live (hb.mem_labels_map f hy)
  have hparent := hcopy.parent?_map hb ht hy
  have hchildren := hcopy.children_map hb hy
  have hfigure := hcopy.figure_map hb hy
  have hlisteners : m.listeners = [] := (hcopy.rest _ m hm).resolve_left fun hold =>
    hcopy.fresh _ (hb.mem_labels_map f hy) ⟨m, hold⟩
  rw [parent?_of_node? hm, parent?_of_node? hn] at hparent
  rw [children_of_node? hm, children_of_node? hn] at hchildren
  rw [figure_of_node? hm, figure_of_node? hn] at hfigure
  rw [hm, Option.some.injEq, ← hparent, ← hchildren, ← hlisteners]
  obtain ⟨_, _, _, _, _, _, _, _⟩ := n
  obtain ⟨_, _, _, _, _, _, _, _⟩ := m
  simp_all [Node.figure]

end Copied

/-- A copy of the shape of a subtree is a renaming of it. -/
theorem Copied.duplicated {c : Branch NodeId} (h : t.Sound) (h' : t'.Sound) (hb : t.Holds b)
    (hcopy : t.Copied t' b c) : ∃ f, t.Duplicated t' b.label c.label f := by
  have hl := h.tree.linked
  obtain ⟨f, rfl⟩ := Branch.exists_map_eq hcopy.shape (hb.nodup hl)
  have hholds := hcopy.holds
  refine ⟨f, ?_⟩
  constructor
  case sound => exact h'
  case top => exact (b.label_map f).symm
  case loose => exact hcopy.loose
  case injective =>
    have hnodup := hholds.nodup hcopy.linked
    rw [b.labels_map] at hnodup
    intro y hy z hz heq
    exact List.inj_on_of_nodup_map hnodup (hb.mem_labels_iff.2 hy) (hb.mem_labels_iff.2 hz) heq
  case onto =>
    intro z
    rw [← hholds.mem_labels_iff, b.labels_map, List.mem_map]
    exact exists_congr fun y => and_congr_left fun _ => hb.mem_labels_iff
  case node => exact fun y n hy hn => hcopy.node?_map hb h.tree hy hn
  case order =>
    rw [hholds.documentOrder_size hcopy.linked, hb.documentOrder_size hl, b.labels_map]
  case fresh => exact fun y hy => hcopy.fresh _ (hb.mem_labels_map f hy)
  case kept => exact hcopy.kept
  case whole =>
    intro z hz
    rw [← hholds.mem_labels_iff]
    exact hcopy.whole z hz
  case count =>
    have hsplit : t'.liveCount = t.liveCount + t'.weight (b.map f).label := by
      refine h.liveCount_split h' hholds.live_label (fun z => ?_) fun z hz => ?_
      · rw [← hholds.mem_labels_iff]
        exact ⟨hcopy.whole z, fun hz =>
          hz.elim (fun hold => hold.of_node? (hcopy.kept z hold)) hholds.live⟩
      · exact hcopy.fresh z (hholds.mem_labels_iff.2 hz)
    rw [hsplit, ← weight_eq_ncard h.tree hb.live_label, weight, weight,
      hholds.preorder hcopy.linked, hb.preorder hl, b.labels_map, List.length_map]

/-- Copying a node gives a renaming of its subtree to new nodes, and changes nothing else. -/
theorem cloneNode_duplicates (h : t.Sound) (hid : t.Live id) :
    ∃ copy t' f, t.cloneNode id = (.ok copy, t') ∧ t.Duplicated t' id copy f := by
  obtain ⟨b, rfl, hb⟩ := exists_holds h.tree.linked h.tree.acyclic hid
  obtain ⟨c, t', hclone, hcopy⟩ := cloneNode_spec h.tree.linked hb
  have hsound : (t.cloneNode b.label).2.Sound := h.cloneNode
  rw [hclone] at hsound
  obtain ⟨f, hf⟩ := hcopy.duplicated h hsound hb
  exact ⟨c.label, t', f, hclone, hf⟩

/-- A list with an item that listens, and a text behind the item that was destroyed. -/
def songHistory : List (HostOperation Unit) :=
  let list : NodeId := ⟨1, 0⟩
  let item : NodeId := ⟨2, 0⟩
  [.appendElement root "ul" [], .appendElement list "li" [("class", "song")],
    .appendText item "one", .addListener item "click" (), .appendText list "two", .destroy ⟨4, 0⟩]

theorem songHistory_permits : (empty : HostTree Unit).RunPermits songHistory := by
  refine ⟨⟨fun p hp => ?_, nofun⟩, ⟨fun p hp => ?_, nofun⟩, ⟨fun p hp => ?_, nofun⟩, ⟨nofun, nofun⟩,
    ⟨fun p hp => ?_, nofun⟩, ⟨nofun, nofun⟩, trivial⟩
  all_goals exact Option.some.inj hp ▸ ⟨_, rfl⟩

/-- The copy of the list takes the slot of the destroyed text, and the copy of the item does not
    listen. -/
theorem songHistory_duplicates :
    let t := (empty : HostTree Unit).run songHistory
    let t' := (t.cloneNode ⟨1, 0⟩).2
    t.Sound ∧ t.Live ⟨1, 0⟩ ∧ (t.cloneNode ⟨1, 0⟩).1 = .ok ⟨4, 1⟩ ∧
      (∃ f, t.Duplicated t' ⟨1, 0⟩ ⟨4, 1⟩ f) ∧
      t'.documentOrder t'.slots.size ⟨4, 1⟩ = [⟨4, 1⟩, ⟨5, 0⟩, ⟨6, 0⟩] ∧
      [(⟨2, 0⟩ : NodeId), ⟨5, 0⟩].map (fun y => (t'.listenersOf y).length) = [1, 0] := by
  intro t t'
  have h : t.Sound := sound_empty.run songHistory_permits
  have hlive : t.Live ⟨1, 0⟩ := ⟨_, rfl⟩
  have hcopy : (t.cloneNode ⟨1, 0⟩).1 = .ok ⟨4, 1⟩ := by decide +kernel
  obtain ⟨copy, t₁, f, hclone, hf⟩ := cloneNode_duplicates h hlive
  obtain rfl : copy = ⟨4, 1⟩ := Except.ok.inj ((congrArg Prod.fst hclone).symm.trans hcopy)
  obtain rfl : t' = t₁ := congrArg Prod.snd hclone
  exact ⟨h, hlive, hcopy, ⟨f, hf⟩, by decide +kernel, by decide +kernel⟩

end HostTree

end ReactiveTemplate
