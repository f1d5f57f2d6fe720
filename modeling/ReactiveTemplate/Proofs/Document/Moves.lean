import ReactiveTemplate.Proofs.Document.Branches

/-!
# Moving nodes

What replacing, inserting and taking out nodes does to the links of a document. None of it
touches the content of any node.

* `HostTree.relist`, `HostTree.reparent`: the two halves of a link, changed on their own.
* `HostTree.detach_of_parent?`: taking a node out of its parent.
* `HostTree.children_attach`, `HostTree.parent?_attach`: the links of a node that was put in.
* `HostTree.replace_spec`, `HostTree.insertAfter_spec`: a node in the place of another, and
  right behind it.
-/

namespace ReactiveTemplate.HostTree

variable {α : Type} {t t' : HostTree α} {id p q c old new anchor child : NodeId}

/-- The document with other children of a node. -/
def relist (t : HostTree α) (p : NodeId) (change : List NodeId → List NodeId) : HostTree α :=
  t.modify p fun m => { m with children := change m.children }

/-- The document with another parent of a node. -/
def reparent (t : HostTree α) (c : NodeId) (parent : Option NodeId) : HostTree α :=
  t.modify c fun n => { n with parent := parent }

/-! ## Halves of a link -/

theorem children_relist (hp : t.Live p) (change : List NodeId → List NodeId) (q : NodeId) :
    (t.relist p change).children q = if q = p then change (t.children p) else t.children q := by
  obtain ⟨m, hm⟩ := hp
  rw [children, relist, node?_modify]
  split
  · rw [hm, children_of_node? hm]
    rfl
  · rfl

theorem parent?_relist (t : HostTree α) (p : NodeId) (change : List NodeId → List NodeId)
    (c : NodeId) : (t.relist p change).parent? c = t.parent? c := by
  rw [parent?, relist, node?_modify]
  split
  · next h =>
    rw [h, parent?]
    cases t.node? p <;> rfl
  · rfl

theorem content_relist (t : HostTree α) (p : NodeId) (change : List NodeId → List NodeId)
    (c : NodeId) : (t.relist p change).content c = t.content c := by
  rw [content, relist, node?_modify]
  split
  · next h =>
    rw [h, content]
    cases t.node? p <;> rfl
  · rfl

theorem children_reparent (t : HostTree α) (c : NodeId) (parent : Option NodeId) (q : NodeId) :
    (t.reparent c parent).children q = t.children q := by
  rw [children, reparent, node?_modify]
  split
  · next h =>
    rw [h, children]
    cases t.node? c <;> rfl
  · rfl

theorem parent?_reparent (hc : t.Live c) (parent : Option NodeId) (id : NodeId) :
    (t.reparent c parent).parent? id = if id = c then parent else t.parent? id := by
  obtain ⟨n, hn⟩ := hc
  rw [parent?, reparent, node?_modify]
  split
  · rw [hn]
    rfl
  · rfl

theorem content_reparent (t : HostTree α) (c : NodeId) (parent : Option NodeId) (id : NodeId) :
    (t.reparent c parent).content id = t.content id := by
  rw [content, reparent, node?_modify]
  split
  · next h =>
    rw [h, content]
    cases t.node? c <;> rfl
  · rfl

theorem live_relist (hid : t.Live id) (p : NodeId) (change : List NodeId → List NodeId) :
    (t.relist p change).Live id :=
  hid.of_content (content_relist t p change id)

theorem live_reparent (hid : t.Live id) (c : NodeId) (parent : Option NodeId) :
    (t.reparent c parent).Live id :=
  hid.of_content (content_reparent t c parent id)

/-- Links stay in order when a node without a parent is listed once more, below its new one. -/
theorem Linked.link (hl : t.Linked) (hroot : c ≠ root) (hfree : t.parent? c = none)
    (hrooted : t'.Live root) (hslots : t'.FreeSound)
    (hparent : ∀ x, t'.parent? x = if x = c then some p else t.parent? x)
    (hothers : ∀ q, q ≠ p → t'.children q = t.children q)
    (hlisted : (t'.children p).Perm (c :: t.children p)) : t'.Linked := by
  have hloose := hl.loose hfree
  refine ⟨hrooted, ?_, hslots, fun {q x} hx => ?_, fun q => ?_⟩
  · rw [hparent, if_neg hroot.symm, hl.top]
  · have hold : ∀ q, x ∈ t.children q → t'.parent? x = some q := by
      intro q hmem
      have hne : x ≠ c := fun heq => hloose q (heq ▸ hmem)
      rw [hparent, if_neg hne, hl.child hmem]
    by_cases hq : q = p
    · rw [hq] at hx ⊢
      rcases List.mem_cons.1 (hlisted.mem_iff.1 hx) with rfl | hmem
      · rw [hparent, if_pos rfl]
      · exact hold p hmem
    · exact hold q (hothers q hq ▸ hx)
  · by_cases hq : q = p
    · rw [hq]
      exact hlisted.symm.nodup (List.nodup_cons.2 ⟨hloose p, hl.nodup p⟩)
    · rw [hothers q hq]
      exact hl.nodup q

/-! ## Taking out -/

/-- The document without the link between a node and its parent. -/
def unhooked (t : HostTree α) (p id : NodeId) : HostTree α :=
  (t.relist p fun ids => ids.filter (· != id)).reparent id none

theorem detach_of_parent?_none (hid : t.Live id) (hp : t.parent? id = none) :
    t.detach id = .ok t := by
  obtain ⟨n, hn⟩ := hid
  rw [parent?_of_node? hn] at hp
  simp only [detach, get_of_node? hn, hp, bind, Except.bind]
  rfl

theorem detach_of_parent? (hp : t.parent? id = some p) (hlive : t.Live p) :
    t.detach id = .ok (t.unhooked p id) := by
  obtain ⟨n, hn⟩ := live_of_parent? hp
  obtain ⟨m, hm⟩ := hlive
  rw [parent?_of_node? hn] at hp
  simp only [detach, get_of_node? hn, hp, bind, Except.bind, get_of_node? hm]
  rfl

theorem children_unhooked (hp : t.Live p) (id q : NodeId) :
    (t.unhooked p id).children q =
      if q = p then (t.children p).filter (· != id) else t.children q := by
  rw [unhooked, children_reparent, children_relist hp]

theorem parent?_unhooked (hid : t.Live id) (p c : NodeId) :
    (t.unhooked p id).parent? c = if c = id then none else t.parent? c := by
  rw [unhooked, parent?_reparent (live_relist hid p _), parent?_relist]

theorem content_unhooked (t : HostTree α) (p id c : NodeId) :
    (t.unhooked p id).content c = t.content c := by
  rw [unhooked, content_reparent, content_relist]

theorem Linked.unhooked (hl : t.Linked) (hp : t.parent? id = some p) (hlive : t.Live p) :
    (t.unhooked p id).Linked := by
  have hid := live_of_parent? hp
  refine ⟨hl.rooted.of_content (content_unhooked t p id root), ?_,
    (hl.free.modify p _).modify id _, ?_, ?_⟩
  · rw [parent?_unhooked hid, hl.top]
    split <;> rfl
  · intro q c hc
    rw [children_unhooked hlive] at hc
    rw [parent?_unhooked hid]
    split at hc
    · next hq =>
      obtain ⟨hmem, hne⟩ := List.mem_filter.1 hc
      rw [if_neg (by simpa using hne), hq]
      exact hl.child hmem
    · next hq =>
      have hne : c ≠ id := by
        rintro rfl
        exact hq (Option.some.inj ((hl.child hc).symm.trans hp))
      rw [if_neg hne]
      exact hl.child hc
  · intro q
    rw [children_unhooked hlive]
    split
    · exact (hl.nodup p).filter _
    · exact hl.nodup q

/-! ## Replacing -/

/-- What putting a node without a parent into the place of another does. -/
structure Replaced (t t' : HostTree α) (p old new : NodeId) (front back : List NodeId) : Prop where
  linked : t'.Linked
  content : ∀ x, t'.content x = t.content x
  children : ∀ q, t'.children q = if q = p then front ++ new :: back else t.children q
  parent : ∀ x, t'.parent? x =
    if x = old then none else if x = new then some p else t.parent? x

theorem idxOf?_append {ids : List NodeId} (hid : id ∉ ids) (rest : List NodeId) :
    (ids ++ id :: rest).idxOf? id = some ids.length := by
  induction ids with
  | nil => simp [List.idxOf?_cons]
  | cons first ids ih =>
    rw [List.mem_cons, not_or] at hid
    have hne : (first == id) = false := by simpa using Ne.symm hid.1
    rw [List.cons_append, List.idxOf?_cons, hne, ih hid.2]
    simp

/-- A node that is listed once is not listed in front of itself. -/
theorem not_mem_front {front back : List NodeId} (h : (front ++ id :: back).Nodup) : id ∉ front :=
  fun hmem => (List.nodup_append.1 h).2.2 id hmem id List.mem_cons_self rfl

/-- Another node in the place of a child is listed once if it was not listed. -/
theorem nodup_exchange {front back : List NodeId} (h : (front ++ old :: back).Nodup)
    (hfront : new ∉ front) (hback : new ∉ back) : (front ++ new :: back).Nodup := by
  rw [List.nodup_append, List.nodup_cons] at h ⊢
  obtain ⟨hf, ⟨-, hb⟩, hne⟩ := h
  refine ⟨hf, ⟨hback, hb⟩, fun a ha b hb' => ?_⟩
  rcases List.mem_cons.1 hb' with rfl | hb'
  · rintro rfl
    exact hfront ha
  · exact hne a ha b (List.mem_cons_of_mem _ hb')

theorem replace_spec (hl : t.Linked) {front back : List NodeId}
    (hchildren : t.children p = front ++ old :: back) (hnew : t.Live new)
    (hfree : t.parent? new = none) (hroot : new ≠ root) :
    ∃ t', t.replace old new = (.ok (), t') ∧ t.Replaced t' p old new front back := by
  have hmem : old ∈ t.children p := by rw [hchildren]; simp
  have hparent : t.parent? old = some p := hl.child hmem
  obtain ⟨n, hn⟩ := live_of_parent? hparent
  obtain ⟨m, hm⟩ := live_of_mem_children hmem
  have hnodup : (front ++ old :: back).Nodup := hchildren ▸ hl.nodup p
  have hfront : old ∉ front := not_mem_front hnodup
  have hback : old ∉ back := (List.nodup_cons.1 (List.nodup_append.1 hnodup).2.1).1
  have hne : new ≠ old := by
    rintro rfl
    rw [hparent] at hfree
    cases hfree
  have hloose := hl.loose hfree
  let t₁ := t.relist p fun ids => ids.set front.length new
  let t₂ := t₁.reparent new (some p)
  let t' := t₂.reparent old none
  have h₁ : t₁.Live new := live_relist hnew p _
  have h₂ : t₂.Live old := live_reparent (live_relist ⟨n, hn⟩ p _) new _
  have hc : ∀ q, t'.children q = if q = p then front ++ new :: back else t.children q := by
    intro q
    rw [children_reparent, children_reparent, children_relist ⟨m, hm⟩, hchildren]
    simp
  have hq : ∀ x, t'.parent? x =
      if x = old then none else if x = new then some p else t.parent? x := by
    intro x
    rw [parent?_reparent h₂, parent?_reparent h₁, parent?_relist]
  have hk : ∀ x, t'.content x = t.content x := by
    intro x
    rw [content_reparent, content_reparent, content_relist]
  have hrootold : root ≠ old := by
    rintro h
    rw [← h, hl.top] at hparent
    cases hparent
  refine ⟨t', ?_, ⟨?_, ?_, ?_, ?_, ?_⟩, hk, hc, hq⟩
  · have hidx : m.children.idxOf? old = some front.length := by
      rw [← children_of_node? hm, hchildren, idxOf?_append hfront]
    rw [parent?_of_node? hn] at hparent
    simp only [replace, get_of_node? hn, hparent, detach_of_parent?_none hnew hfree,
      get_of_node? hm, hidx]
    rfl
  · exact hl.rooted.of_content (hk root)
  · rw [hq, if_neg hrootold, if_neg hroot.symm, hl.top]
  · exact ((hl.free.modify p _).modify new _).modify old _
  · intro q c h
    rw [hc] at h
    rw [hq]
    split at h
    · next heq =>
      rw [heq]
      by_cases hcn : c = new
      · rw [if_neg (hcn ▸ hne), if_pos hcn]
      · have hside : c ∈ front ∨ c ∈ back := by simpa [hcn] using h
        have hcold : c ≠ old := by
          rintro rfl
          exact hside.elim hfront hback
        rw [if_neg hcold, if_neg hcn]
        refine hl.child ?_
        rw [hchildren]
        rcases hside with h | h <;> simp [h]
    · next hqp =>
      have hcn : c ≠ new := fun heq => hloose q (heq ▸ h)
      have hcold : c ≠ old := by
        rintro rfl
        exact hqp (Option.some.inj ((hl.child h).symm.trans hparent))
      rw [if_neg hcold, if_neg hcn]
      exact hl.child h
  · intro q
    rw [hc]
    split
    · refine nodup_exchange hnodup ?_ ?_ <;> intro h <;> refine hloose p ?_ <;>
        rw [hchildren] <;> simp [h]
    · exact hl.nodup q

/-! ## Inserting -/

theorem children_attach (hp : t.Live p) (child : NodeId) (position : Nat) (q : NodeId) :
    (t.attach p child position).children q =
      if q = p then (t.children p).insertIdx position child else t.children q :=
  (children_reparent (t.relist p fun ids => ids.insertIdx position child) child _ q).trans
    (children_relist hp _ q)

theorem parent?_attach (hchild : t.Live child) (p : NodeId) (position : Nat) (id : NodeId) :
    (t.attach p child position).parent? id = if id = child then some p else t.parent? id := by
  have hrelist := parent?_relist t p (fun ids => ids.insertIdx position child) id
  exact hrelist ▸ parent?_reparent (live_relist hchild p _) (some p) id

theorem content_attach (t : HostTree α) (p child : NodeId) (position : Nat) (id : NodeId) :
    (t.attach p child position).content id = t.content id :=
  (content_reparent (t.relist p fun ids => ids.insertIdx position child) child _ id).trans
    (content_relist t p _ id)

/-- What putting a node without a parent right behind another does. -/
structure Inserted (t t' : HostTree α) (p anchor child : NodeId) (front back : List NodeId) :
    Prop where
  linked : t'.Linked
  content : ∀ x, t'.content x = t.content x
  children : ∀ q, t'.children q = if q = p then front ++ anchor :: child :: back else t.children q
  parent : ∀ x, t'.parent? x = if x = child then some p else t.parent? x

theorem following_append {ids : List NodeId} (hid : id ∉ ids) (rest : List NodeId) :
    following id (ids ++ id :: rest) = rest.head? := by
  induction ids with
  | nil => simp [following]
  | cons first ids ih =>
    rw [List.mem_cons, not_or] at hid
    rw [List.cons_append, following, if_neg (Ne.symm hid.1), ih hid.2]

/-- The node after another one is the next one listed. -/
theorem Linked.nextSibling? (hl : t.Linked) {front back : List NodeId}
    (hchildren : t.children p = front ++ anchor :: back) : t.nextSibling? anchor = back.head? := by
  have hparent : t.parent? anchor = some p := hl.child (by rw [hchildren]; simp)
  rw [HostTree.nextSibling?, hparent, Option.bind_some, hchildren,
    following_append (not_mem_front (hchildren ▸ hl.nodup p))]

theorem insertIdx_behind (front back : List NodeId) (anchor child : NodeId) :
    (front ++ anchor :: back).insertIdx (front.length + 1) child =
      front ++ anchor :: child :: back := by
  induction front with
  | nil => simp
  | cons first front ih =>
    rw [List.cons_append, List.length_cons, List.insertIdx_succ_cons, ih, List.cons_append]

/-- A node without a parent goes right behind another one. -/
theorem insertAfter_eq (hl : t.Linked) {front back : List NodeId}
    (hchildren : t.children p = front ++ anchor :: back) (hchild : t.Live child)
    (hfree : t.parent? child = none) :
    t.insertAfter anchor child = (.ok (), t.attach p child (front.length + 1)) := by
  have hmem : anchor ∈ t.children p := by rw [hchildren]; simp
  have hparent : t.parent? anchor = some p := hl.child hmem
  obtain ⟨m, hm⟩ := live_of_mem_children hmem
  have hnodup : (front ++ anchor :: back).Nodup := hchildren ▸ hl.nodup p
  have hsibling := hl.nextSibling? hchildren
  simp only [insertAfter, hparent, hsibling, insertBefore, get_of_node? hm,
    detach_of_parent?_none hchild hfree]
  cases hback : back with
  | nil =>
    simp only [List.head?_nil, hchildren, hback, List.length_append, List.length_singleton]
  | cons reference rest =>
    have hreference : reference ∉ front ++ [anchor] := by
      rw [hback, List.append_cons] at hnodup
      exact not_mem_front hnodup
    have hidx : (t.children p).idxOf? reference = some (front.length + 1) := by
      rw [hchildren, hback, List.append_cons, idxOf?_append hreference]
      simp
    simp only [List.head?_cons, hidx]

theorem insertAfter_spec (hl : t.Linked) {front back : List NodeId}
    (hchildren : t.children p = front ++ anchor :: back) (hchild : t.Live child)
    (hfree : t.parent? child = none) (hroot : child ≠ root) :
    ∃ t', t.insertAfter anchor child = (.ok (), t') ∧
      t.Inserted t' p anchor child front back := by
  have hmem : anchor ∈ t.children p := by rw [hchildren]; simp
  let position := front.length + 1
  let t' := t.attach p child position
  have hposition : position ≤ (t.children p).length := by rw [hchildren]; simp [position]
  have hc := children_attach (live_of_mem_children hmem) child position
  have hq := parent?_attach hchild p position
  have hk := content_attach t p child position
  have hlinked : t'.Linked := by
    refine hl.link hroot hfree (hl.rooted.of_content (hk root))
      ((hl.free.modify p _).modify child _) hq (fun q hqp => ?_) ?_
    · rw [hc, if_neg hqp]
    · rw [hc, if_pos rfl]
      exact List.perm_insertIdx child _ hposition
  refine ⟨t', insertAfter_eq hl hchildren hchild hfree, hlinked, hk, fun q => ?_, hq⟩
  rw [hc, hchildren, insertIdx_behind]

end ReactiveTemplate.HostTree
