import Mathlib.Logic.Relation
import ReactiveTemplate.Host.Edit

/-!
# Nodes under edits

What the name of a node means after a node was changed, added or released, and the links
between parents and children.

* `HostTree.node?_modify`, `HostTree.node?_allocate`, `HostTree.node?_vacate`: the node
  behind a name after a single change.
* `HostTree.Linked`: every child knows its parent, and the empty slots are empty.
* `HostTree.Below`: the nodes in the subtree of a node.
-/

namespace ReactiveTemplate

/-- What a node is apart from its place and its listeners. -/
structure Figure where
  kind : NodeKind
  attributes : Fields String
  styles : Fields String
  data : String
  value : String
  deriving DecidableEq

instance : Inhabited Figure := ⟨.text, .empty, .empty, "", ""⟩

/-- What a node is apart from its place and its listeners. -/
def Node.figure {α : Type} (n : Node α) : Figure :=
  ⟨n.kind, n.attributes, n.styles, n.data, n.value⟩

namespace HostTree

variable {α : Type} {t : HostTree α} {id other p c : NodeId}

/-- Whether a name means a node. -/
def Live (t : HostTree α) (id : NodeId) : Prop := ∃ n, t.node? id = some n

/-- A node without its place. -/
def content (t : HostTree α) (id : NodeId) : Option (Node α) :=
  (t.node? id).map fun n => { n with parent := none, children := [] }

/-- The figure of a node; a dead name has any. -/
def figure (t : HostTree α) (id : NodeId) : Figure := (t.node? id).elim default Node.figure

/-- The listeners of a node. -/
def listenersOf (t : HostTree α) (id : NodeId) : List (Listener α) :=
  (t.node? id).elim [] Node.listeners

/-- The free slots are empty, and none is listed twice. -/
structure FreeSound (t : HostTree α) : Prop where
  vacant : ∀ index ∈ t.free, ∃ generation, t.slots[index]? = some ⟨generation, none⟩
  nodup : t.free.Nodup

/-- The links of a document: a child has its parent as parent and is listed once, and the
    document node is nobody's child. -/
structure Linked (t : HostTree α) : Prop where
  rooted : t.Live root
  top : t.parent? root = none
  free : t.FreeSound
  child : ∀ {p c}, c ∈ t.children p → t.parent? c = some p
  nodup : ∀ p, (t.children p).Nodup

/-- A node lies in the subtree of another. -/
def Below (t : HostTree α) : NodeId → NodeId → Prop :=
  Relation.ReflTransGen fun p c => c ∈ t.children p

/-- No node lists a name among its children. -/
def Loose (t : HostTree α) (id : NodeId) : Prop := ∀ p, id ∉ t.children p

/-! ## Reading a node -/

theorem children_of_node? {n : Node α} (h : t.node? id = some n) : t.children id = n.children := by
  rw [children, h]
  rfl

theorem children_of_node?_none (h : t.node? id = none) : t.children id = [] := by
  rw [children, h]
  rfl

theorem parent?_of_node? {n : Node α} (h : t.node? id = some n) : t.parent? id = n.parent := by
  rw [parent?, h]
  rfl

theorem parent?_of_node?_none (h : t.node? id = none) : t.parent? id = none := by
  rw [parent?, h]
  rfl

theorem figure_of_node? {n : Node α} (h : t.node? id = some n) : t.figure id = n.figure := by
  rw [figure, h]
  rfl

theorem get_of_node? {n : Node α} (h : t.node? id = some n) : t.get id = .ok n := by
  rw [get, h]

theorem content_of_node? {n : Node α} (h : t.node? id = some n) :
    t.content id = some { n with parent := none, children := [] } := by
  rw [content, h]
  rfl

theorem live_iff_content : t.Live id ↔ t.content id ≠ none := by
  rw [Live, content]
  cases t.node? id <;> simp

theorem not_live_iff : ¬ t.Live id ↔ t.node? id = none :=
  not_exists.trans Option.eq_none_iff_forall_ne_some.symm

theorem Live.of_node? {t' : HostTree α} (h : t.Live id) (hsame : t'.node? id = t.node? id) :
    t'.Live id := by
  obtain ⟨n, hn⟩ := h
  exact ⟨n, hsame.trans hn⟩

theorem Live.of_content {t' : HostTree α} (h : t.Live id) (hc : t'.content id = t.content id) :
    t'.Live id := by
  rw [live_iff_content, hc]
  exact live_iff_content.1 h

theorem figure_eq_of_content_eq {t' : HostTree α} (h : t'.content id = t.content id) :
    t'.figure id = t.figure id := by
  have hfigure : ∀ s : HostTree α, s.figure id = (s.content id).elim default Node.figure := by
    intro s
    rw [figure, content]
    cases s.node? id <;> rfl
  rw [hfigure, h, ← hfigure]

theorem listenersOf_eq_of_content_eq {t' : HostTree α} (h : t'.content id = t.content id) :
    t'.listenersOf id = t.listenersOf id := by
  have hlisteners : ∀ s : HostTree α, s.listenersOf id = (s.content id).elim [] Node.listeners := by
    intro s
    rw [listenersOf, content]
    cases s.node? id <;> rfl
  rw [hlisteners, h, ← hlisteners]

theorem listeners_of_content_eq {t' : HostTree α} {n : Node α} (hn : t'.node? id = some n)
    (h : t'.content id = t.content id) :
    ∃ m, t.node? id = some m ∧ n.listeners = m.listeners := by
  rw [content_of_node? hn] at h
  cases hm : t.node? id with
  | none =>
    rw [content, hm] at h
    cases h
  | some m =>
    rw [content_of_node? hm, Option.some.injEq] at h
    have hlisteners := congrArg Node.listeners h
    exact ⟨m, rfl, hlisteners⟩

/-- Content makes the node but for its place. -/
theorem node?_of_content {t' : HostTree α} {n : Node α} (hn : t.node? id = some n)
    (hcontent : t'.content id = t.content id) :
    t'.node? id = some { n with parent := t'.parent? id, children := t'.children id } := by
  obtain ⟨m, hm⟩ : t'.Live id := Live.of_content ⟨n, hn⟩ hcontent
  rw [content_of_node? hn, content_of_node? hm, Option.some.injEq] at hcontent
  rw [hm, parent?_of_node? hm, children_of_node? hm]
  obtain ⟨_, _, _, _, _, _, _, _⟩ := n
  obtain ⟨_, _, _, _, _, _, _, _⟩ := m
  simp only [Node.mk.injEq, true_and] at hcontent
  simp_all

/-- Content and parent make the node but for its children. -/
theorem node?_of_content_eq {t' : HostTree α} {n : Node α} (hn : t.node? id = some n)
    (hcontent : t'.content id = t.content id) (hparent : t'.parent? id = t.parent? id) :
    t'.node? id = some { n with children := t'.children id } := by
  rw [node?_of_content hn hcontent, hparent, parent?_of_node? hn]

/-- Content and place make the node. -/
theorem node?_eq_of_content_eq {t' : HostTree α} (hcontent : t'.content id = t.content id)
    (hparent : t'.parent? id = t.parent? id) (hchildren : t'.children id = t.children id) :
    t'.node? id = t.node? id := by
  cases hn : t.node? id with
  | none =>
    rw [content, content, hn] at hcontent
    exact Option.map_eq_none_iff.1 hcontent
  | some n => rw [node?_of_content_eq hn hcontent hparent, hchildren, children_of_node? hn]

theorem live_of_parent? (h : t.parent? c = some p) : t.Live c := by
  cases hn : t.node? c with
  | none => rw [parent?_of_node?_none hn] at h; cases h
  | some n => exact ⟨n, hn⟩

theorem live_of_mem_children (h : c ∈ t.children p) : t.Live p := by
  cases hn : t.node? p with
  | none => rw [children_of_node?_none hn] at h; cases h
  | some n => exact ⟨n, hn⟩

theorem Linked.live (hl : t.Linked) (hc : c ∈ t.children p) : t.Live c :=
  live_of_parent? (hl.child hc)

/-- A name without a parent is nobody's child. -/
theorem Linked.loose (hl : t.Linked) (hid : t.parent? id = none) : t.Loose id := by
  intro p hp
  rw [hl.child hp] at hid
  cases hid

theorem children_eq_of_node?_eq {t' : HostTree α} (h : t'.node? id = t.node? id) :
    t'.children id = t.children id := by
  rw [children, h, children]

theorem parent?_eq_of_node?_eq {t' : HostTree α} (h : t'.node? id = t.node? id) :
    t'.parent? id = t.parent? id := by
  rw [parent?, h, parent?]

theorem content_eq_of_node?_eq {t' : HostTree α} (h : t'.node? id = t.node? id) :
    t'.content id = t.content id := by
  rw [content, h, content]

theorem figure_eq_of_node?_eq {t' : HostTree α} (h : t'.node? id = t.node? id) :
    t'.figure id = t.figure id := by
  rw [figure, h, figure]

/-! ## Single changes -/

theorem node?_modify (t : HostTree α) (id other : NodeId) (change : Node α → Node α) :
    (t.modify id change).node? other =
      if other = id then (t.node? id).map change else t.node? other := by
  obtain ⟨i, g⟩ := id
  obtain ⟨j, k⟩ := other
  simp only [node?, modify, Array.getElem?_modify, NodeId.mk.injEq]
  by_cases hij : j = i
  · subst hij
    cases t.slots[j]? with
    | none => simp
    | some slot =>
      by_cases hg : slot.generation = g
      · by_cases hk : k = g
        · simp [hg, hk]
        · have hk' : ¬ slot.generation = k := fun h => hk (h.symm.trans hg)
          simp [hg, hk, Ne.symm hk]
      · by_cases hk : k = g
        · simp [hg, hk]
        · simp [hg, hk]
  · have hij' : ¬ i = j := fun h => hij h.symm
    simp [hij, hij']

theorem node?_modify_self (t : HostTree α) (id : NodeId) (change : Node α → Node α) :
    (t.modify id change).node? id = (t.node? id).map change := by
  rw [node?_modify, if_pos rfl]

theorem node?_modify_of_ne (h : other ≠ id) (change : Node α → Node α) :
    (t.modify id change).node? other = t.node? other := by
  rw [node?_modify, if_neg h]

theorem FreeSound.modify (hf : t.FreeSound) (id : NodeId) (change : Node α → Node α) :
    (t.modify id change).FreeSound := by
  refine ⟨fun index hindex => ?_, hf.nodup⟩
  obtain ⟨generation, hslot⟩ := hf.vacant index hindex
  refine ⟨generation, ?_⟩
  simp only [HostTree.modify, Array.getElem?_modify, hslot]
  split <;> simp

/-- A change that keeps the place of a node keeps all links. -/
theorem Linked.modify (hl : t.Linked) (id : NodeId) {change : Node α → Node α}
    (hparent : ∀ n, (change n).parent = n.parent) (hchildren : ∀ n, (change n).children = n.children) :
    (t.modify id change).Linked := by
  have hc : ∀ p, (t.modify id change).children p = t.children p := by
    intro p
    rw [children, node?_modify]
    split
    · next h =>
      rw [h, children]
      cases t.node? id <;> simp [hchildren]
    · rfl
  have hp : ∀ c, (t.modify id change).parent? c = t.parent? c := by
    intro c
    rw [parent?, node?_modify]
    split
    · next h =>
      rw [h, parent?]
      cases t.node? id <;> simp [hparent]
    · rfl
  refine ⟨?_, (hp root).trans hl.top, hl.free.modify id change, ?_, ?_⟩
  · obtain ⟨n, hn⟩ := hl.rooted
    rw [Live, node?_modify]
    split
    · next h => exact ⟨change n, by rw [← h, hn]; rfl⟩
    · exact ⟨n, hn⟩
  · intro p c h
    rw [hc] at h
    rw [hp]
    exact hl.child h
  · intro p
    rw [hc]
    exact hl.nodup p

/-- The number of the next listener is no link. -/
theorem Linked.number (hl : t.Linked) (number : Nat) :
    Linked { t with nextListener := number } :=
  ⟨hl.rooted, hl.top, ⟨hl.free.vacant, hl.free.nodup⟩, hl.child, hl.nodup⟩

/-- Adding a node gives a name that meant nothing before; every other name is as it was. -/
theorem node?_allocate (hf : t.FreeSound) (node : Node α) (other : NodeId) :
    (t.allocate node).2.node? other =
      if other = (t.allocate node).1 then some node else t.node? other := by
  obtain ⟨j, k⟩ := other
  cases hfree : t.free with
  | nil =>
    simp only [allocate, hfree, node?, Array.getElem?_push, NodeId.mk.injEq]
    by_cases hj : j = t.slots.size
    · subst hj
      by_cases hk : k = 0
      · simp [hk]
      · simp [hk, Ne.symm hk]
    · simp [hj]
  | cons index rest =>
    obtain ⟨generation, hslot⟩ := hf.vacant index (by rw [hfree]; simp)
    simp only [allocate, hfree, node?, Array.getElem?_modify, NodeId.mk.injEq]
    by_cases hj : j = index
    · subst hj
      by_cases hk : k = generation
      · simp [hslot, hk]
      · simp [hslot, hk, Ne.symm hk]
    · have hj' : ¬ index = j := fun h => hj h.symm
      simp [hj, hj']

theorem node?_allocate_fresh (hf : t.FreeSound) (node : Node α) :
    t.node? (t.allocate node).1 = none := by
  cases hfree : t.free with
  | nil => simp [allocate, hfree, node?]
  | cons index rest =>
    obtain ⟨generation, hslot⟩ := hf.vacant index (by rw [hfree]; simp)
    simp [allocate, hfree, node?, hslot]

theorem FreeSound.allocate (hf : t.FreeSound) (node : Node α) :
    (t.allocate node).2.FreeSound := by
  cases hfree : t.free with
  | nil =>
    refine ⟨fun index hindex => ?_, ?_⟩
    · simp only [HostTree.allocate, hfree] at hindex
      cases hindex
    · simp only [HostTree.allocate, hfree]
      exact List.nodup_nil
  | cons first rest =>
    have hnodup := hf.nodup
    rw [hfree, List.nodup_cons] at hnodup
    refine ⟨fun index hindex => ?_, ?_⟩
    · simp only [HostTree.allocate, hfree] at hindex ⊢
      obtain ⟨generation, hslot⟩ := hf.vacant index (by rw [hfree]; simp [hindex])
      have hne : first ≠ index := fun h => hnodup.1 (h ▸ hindex)
      exact ⟨generation, by simp [Array.getElem?_modify, hne, hslot]⟩
    · simp only [HostTree.allocate, hfree]
      exact hnodup.2

/-- Releasing a node takes its name away and leaves all others. -/
theorem node?_vacate (hid : t.Live id) (other : NodeId) :
    (t.vacate id).node? other = if other = id then none else t.node? other := by
  obtain ⟨i, g⟩ := id
  obtain ⟨j, k⟩ := other
  obtain ⟨n, hn⟩ := hid
  simp only [node?] at hn
  simp only [node?, vacate, Array.getElem?_modify, NodeId.mk.injEq]
  by_cases hij : j = i
  · subst hij
    cases hslot : t.slots[j]? with
    | none => simp
    | some slot =>
      rw [hslot] at hn
      dsimp only at hn
      split at hn
      · next hg =>
        by_cases hk : k = g
        · simp [hk]
        · have hne : ¬ slot.generation = k := fun h => hk (h.symm.trans hg)
          simp [hk, hne]
      · cases hn
  · have hij' : ¬ i = j := fun h => hij h.symm
    simp [hij, hij']

theorem FreeSound.vacate (hf : t.FreeSound) (hid : t.Live id) : (t.vacate id).FreeSound := by
  obtain ⟨n, hn⟩ := hid
  have hused : id.index ∉ t.free := by
    intro hmem
    obtain ⟨generation, hslot⟩ := hf.vacant _ hmem
    simp [node?, hslot] at hn
  refine ⟨fun index hindex => ?_, List.nodup_cons.2 ⟨hused, hf.nodup⟩⟩
  rcases List.mem_cons.1 hindex with rfl | hindex
  · cases hslot : t.slots[id.index]? with
    | none => simp [node?, hslot] at hn
    | some slot =>
      refine ⟨slot.generation + 1, ?_⟩
      simp [HostTree.vacate, Array.getElem?_modify, hslot]
  · obtain ⟨generation, hslot⟩ := hf.vacant index hindex
    have hne : id.index ≠ index := fun h => hused (h ▸ hindex)
    exact ⟨generation, by simp [HostTree.vacate, Array.getElem?_modify, hne, hslot]⟩

/-! ## Links -/

theorem Linked.allocate (hl : t.Linked) {node : Node α} (hchildren : node.children = []) :
    (t.allocate node).2.Linked := by
  have hnode := node?_allocate hl.free node
  have hfresh := node?_allocate_fresh hl.free node
  have hc : ∀ p, (t.allocate node).2.children p = t.children p := by
    intro p
    rw [children, hnode]
    split
    · next h =>
      rw [h, children_of_node?_none hfresh]
      exact hchildren
    · rfl
  have hroot : root ≠ (t.allocate node).1 := by
    intro h
    obtain ⟨n, hn⟩ := hl.rooted
    rw [h, hfresh] at hn
    cases hn
  have hsame : (t.allocate node).2.node? root = t.node? root := by rw [hnode, if_neg hroot]
  refine ⟨hl.rooted.of_node? hsame, (parent?_eq_of_node?_eq hsame).trans hl.top,
    hl.free.allocate node, ?_, ?_⟩
  · intro p c h
    rw [hc] at h
    have hne : c ≠ (t.allocate node).1 := by
      rintro rfl
      obtain ⟨n, hn⟩ := hl.live h
      rw [hfresh] at hn
      cases hn
    rw [parent?, hnode, if_neg hne]
    exact hl.child h
  · intro p
    rw [hc]
    exact hl.nodup p

theorem children_vacate (hid : t.Live id) (p : NodeId) :
    (t.vacate id).children p = if p = id then [] else t.children p := by
  rw [children, node?_vacate hid]
  split <;> rfl

theorem Linked.vacate (hl : t.Linked) (hid : t.Live id) (hloose : t.Loose id) (hne : id ≠ root) :
    (t.vacate id).Linked := by
  have hsame : (t.vacate id).node? root = t.node? root := by
    rw [node?_vacate hid, if_neg hne.symm]
  refine ⟨hl.rooted.of_node? hsame, (parent?_eq_of_node?_eq hsame).trans hl.top,
    hl.free.vacate hid, ?_, ?_⟩
  · intro p c h
    rw [children_vacate hid] at h
    split at h
    · cases h
    · have hcid : c ≠ id := fun heq => hloose p (heq ▸ h)
      rw [parent?, node?_vacate hid, if_neg hcid]
      exact hl.child h
  · intro p
    rw [children_vacate hid]
    split
    · exact List.nodup_nil
    · exact hl.nodup p

/-! ## Subtrees -/

theorem Below.refl (t : HostTree α) (id : NodeId) : t.Below id id := Relation.ReflTransGen.refl

/-- Where every node has no further children, no more nodes lie below. -/
theorem Below.mono {t' : HostTree α} (hsub : ∀ p, t'.children p ⊆ t.children p)
    (h : t'.Below id other) : t.Below id other :=
  Relation.ReflTransGen.mono (fun p _ hc => hsub p hc) _ _ h

theorem Below.live (hl : t.Linked) (hid : t.Live id) (h : t.Below id other) : t.Live other := by
  rcases Relation.ReflTransGen.cases_tail h with heq | ⟨p, -, hother⟩
  · exact heq ▸ hid
  · exact hl.live hother

/-- What lies below a node but is not the node has its parent below it. -/
theorem Linked.below_parent (hl : t.Linked) (h : t.Below id other) (hne : other ≠ id) :
    ∃ p, t.parent? other = some p ∧ t.Below id p := by
  rcases Relation.ReflTransGen.cases_tail h with heq | ⟨p, hp, hother⟩
  · exact absurd heq hne
  · exact ⟨p, hl.child hother, hp⟩

/-- The document node is below no other one. -/
theorem Linked.not_below_root (hl : t.Linked) (hne : id ≠ root) : ¬ t.Below id root := by
  intro h
  obtain ⟨p, hp, -⟩ := hl.below_parent h hne.symm
  rw [hl.top] at hp
  cases hp

/-- Of two nodes above a third, one is above the other. -/
theorem Linked.below_total {id' : NodeId} (hl : t.Linked) (h : t.Below id other)
    (h' : t.Below id' other) : t.Below id id' ∨ t.Below id' id := by
  induction h with
  | refl => exact .inr h'
  | @tail b c hb hbc ih =>
    rcases Relation.ReflTransGen.cases_tail h' with heq | ⟨p, hp, hpc⟩
    · exact .inl (heq ▸ hb.tail hbc)
    · have hpb : p = b := Option.some.inj ((hl.child hpc).symm.trans (hl.child hbc))
      exact ih (hpb ▸ hp)

end HostTree

end ReactiveTemplate
