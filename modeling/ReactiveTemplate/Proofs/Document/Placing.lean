import ReactiveTemplate.Proofs.Document.Failures

/-!
# Placing a node behind another

Where a node ends up that is inserted after another one. The node may come from anywhere: from no
parent, from another one, or from among the children of the same parent, on either side. The node
that follows the anchor is looked up before the node is taken out, so the one place that it cannot
come from is the place that it is to get.

* `HostTree.PlacedBehind`: a node stands behind another, and nothing else has moved.
* `HostTree.insertAfter_places`: every node that does not follow the anchor already is placed.
* `HostTree.insertAfter_loses`: one that does is taken out and not put back.
* `HostTree.insertAfter_places_unless_next`: both together.
-/

namespace ReactiveTemplate.HostTree

variable {α : Type} {t t₁ : HostTree α} {p q anchor child : NodeId}

/-- A node stands right behind another one, below the same parent. All other nodes have the parents
    and the order they had, and no content has changed. -/
structure PlacedBehind (t t' : HostTree α) (p anchor child : NodeId) : Prop where
  next : t'.nextSibling? anchor = some child
  parent : t'.parent? child = some p
  order : ∀ q, (t'.children q).filter (· != child) = (t.children q).filter (· != child)
  others : ∀ x, x ≠ child → t'.parent? x = t.parent? x
  content : ∀ x, t'.content x = t.content x

/-! ## Taking out first -/

/-- The short form of a node says nothing of its place. -/
theorem describe_eq_of_content_eq {t' : HostTree α} (h : t'.content q = t.content q) :
    t'.describe q = t.describe q := by
  cases hn : t.node? q with
  | none =>
    rw [content, content, hn] at h
    rw [describe, describe, hn, Option.map_eq_none_iff.1 h]
  | some n =>
    obtain ⟨m, hm⟩ : t'.Live q := Live.of_content ⟨n, hn⟩ h
    rw [content_of_node? hn, content_of_node? hm, Option.some.injEq, Node.mk.injEq] at h
    obtain ⟨hkind, hattributes, -, hdata, -⟩ := h
    rw [describe, describe, hn, hm]
    simp only [hkind, hattributes, hdata]

/-- A node that is not the first of a list may be left out of it. -/
theorem head?_filter_ne {ids : List NodeId} (h : ids.head? ≠ some child) :
    (ids.filter (· != child)).head? = ids.head? := by
  cases ids with
  | nil => rfl
  | cons first ids =>
    have hne : first ≠ child := fun heq => h (congrArg some heq)
    rw [List.filter_cons_of_pos (by simpa using hne)]
    rfl

/-- The children of a parent around one that stays, after another was taken out. -/
theorem Detached.children_around (hd : t.Detached t₁ child) (hne : anchor ≠ child)
    {front back : List NodeId} (hchildren : t.children p = front ++ anchor :: back) :
    t₁.children p = front.filter (· != child) ++ anchor :: back.filter (· != child) := by
  rw [hd.children, hchildren, List.filter_append, List.filter_cons_of_pos (by simpa using hne)]

/-- What follows a node is the same after another one was taken out. -/
theorem Detached.nextSibling? (h : t.Sound) (hd : t.Detached t₁ child)
    (hanchor : t.parent? anchor = some p) (hne : anchor ≠ child)
    (hnext : t.nextSibling? anchor ≠ some child) :
    t₁.nextSibling? anchor = t.nextSibling? anchor := by
  obtain ⟨front, back, hchildren⟩ := List.append_of_mem (h.tree.listed hanchor)
  rw [h.tree.linked.nextSibling? hchildren] at hnext ⊢
  rw [hd.sound.tree.linked.nextSibling? (hd.children_around hne hchildren),
    head?_filter_ne hnext]

/-- An insertion takes the node out first, so it may as well be out already. -/
theorem Detached.insertBefore (hd : t.Detached t₁ child) (hdetach : t.detach child = .ok t₁)
    (hp : t.Live p) (hchild : t.Live child) (reference : Option NodeId) :
    t.insertBefore p child reference = t₁.insertBefore p child reference := by
  obtain ⟨n, hn⟩ := hp
  obtain ⟨m, hm⟩ := hd.live ⟨n, hn⟩
  have hagain : t₁.detach child = .ok t₁ := detach_of_parent?_none (hd.live hchild) hd.free
  rw [HostTree.insertBefore, HostTree.insertBefore, get_of_node? hn, get_of_node? hm, hdetach,
    hagain]

theorem Detached.insertAfter (h : t.Sound) (hd : t.Detached t₁ child)
    (hdetach : t.detach child = .ok t₁) (hanchor : t.parent? anchor = some p)
    (hchild : t.Live child) (hne : anchor ≠ child) (hnext : t.nextSibling? anchor ≠ some child) :
    t.insertAfter anchor child = t₁.insertAfter anchor child := by
  have hparent : t₁.parent? anchor = some p := by rw [hd.parent, if_neg hne, hanchor]
  rw [HostTree.insertAfter, HostTree.insertAfter, hanchor, hparent,
    hd.nextSibling? h hanchor hne hnext]
  exact hd.insertBefore hdetach (h.tree.live_parent hanchor) hchild _

/-! ## The two cases -/

theorem insertAfter_places (h : t.Sound) (hanchor : t.parent? anchor = some p)
    (hchild : t.Live child) (habove : ¬ t.Below child anchor)
    (hnext : t.nextSibling? anchor ≠ some child) :
    ∃ t', t.insertAfter anchor child = (.ok (), t') ∧ t.PlacedBehind t' p anchor child := by
  have hne : anchor ≠ child := fun heq => habove (heq ▸ Below.refl t anchor)
  obtain ⟨t₁, hdetach, hd⟩ := detach_spec h hchild
  obtain ⟨front, back, hchildren⟩ := List.append_of_mem (h.tree.listed hanchor)
  have hp := hd.live (h.tree.live_parent hanchor)
  have hchild₁ := hd.live hchild
  have haround := hd.children_around hne hchildren
  let front₁ := front.filter (· != child)
  let back₁ := back.filter (· != child)
  let t' := t₁.attach p child (front₁.length + 1)
  have hlist : t'.children p = front₁ ++ anchor :: child :: back₁ := by
    rw [children_attach hp, if_pos rfl, haround, insertIdx_behind]
  have hparent : t'.parent? anchor = some p := by
    rw [parent?_attach hchild₁, if_neg hne, hd.parent, if_neg hne, hanchor]
  have hfront : anchor ∉ front₁ := not_mem_front (haround ▸ hd.sound.tree.linked.nodup p)
  refine ⟨t', ?_, ?_, ?_, fun q => ?_, fun x hx => ?_, fun x => ?_⟩
  · rw [hd.insertAfter h hdetach hanchor hchild hne hnext,
      insertAfter_eq hd.sound.tree.linked haround hchild₁ hd.free]
  · rw [HostTree.nextSibling?, hparent, Option.bind_some, hlist, following_append hfront]
    rfl
  · rw [parent?_attach hchild₁, if_pos rfl]
  · by_cases hq : q = p
    · rw [hq, hlist, hchildren]
      simp [front₁, back₁, hne]
    · rw [children_attach hp, if_neg hq, hd.children, List.filter_filter]
      simp only [Bool.and_self]
  · rw [parent?_attach hchild₁, if_neg hx, hd.parent, if_neg hx]
  · rw [content_attach, hd.content]

theorem insertAfter_loses (h : t.Sound) (hanchor : t.parent? anchor = some p)
    (hnext : t.nextSibling? anchor = some child) :
    ∃ t', t.insertAfter anchor child =
        (.error (.notAChild (t.describe p) (t.describe child)), t') ∧ t.Detached t' child := by
  have hp := h.tree.live_parent hanchor
  obtain ⟨q, hq, hmem⟩ := mem_of_nextSibling? hnext
  obtain ⟨t₁, hdetach, hd⟩ := detach_spec h (h.tree.linked.live hmem)
  refine ⟨t₁, ?_, hd⟩
  rw [HostTree.insertAfter, hanchor, hnext]
  dsimp only
  rw [insertBefore_reference hp hdetach, hd.idxOf?_eq_none.2 (.inl rfl),
    describe_eq_of_content_eq (hd.content p), describe_eq_of_content_eq (hd.content child)]

/-- A node that is put after another stands behind it and nothing else has moved, wherever it comes
    from, unless it stands there already: then the insertion fails, and the node is left without a
    parent. -/
theorem insertAfter_places_unless_next (h : t.Sound) (hanchor : t.parent? anchor = some p)
    (hchild : t.Live child) (habove : ¬ t.Below child anchor) :
    (t.nextSibling? anchor ≠ some child →
      ∃ t', t.insertAfter anchor child = (.ok (), t') ∧ t.PlacedBehind t' p anchor child) ∧
    (t.nextSibling? anchor = some child →
      ∃ t', t.insertAfter anchor child =
        (.error (.notAChild (t.describe p) (t.describe child)), t') ∧ t.Detached t' child) :=
  ⟨insertAfter_places h hanchor hchild habove, insertAfter_loses h hanchor⟩

/-- A list of three items. -/
def threeItems : List (HostOperation Unit) :=
  let list : NodeId := ⟨1, 0⟩
  [.appendElement root "ul" [], .appendElement list "li" [], .appendElement list "li" [],
    .appendElement list "li" []]

/-- The third item of a list is put behind the first one. The second item is lost there. -/
theorem third_item_placed_second_lost :
    let t := (empty : HostTree Unit).run threeItems
    let list : NodeId := ⟨1, 0⟩
    let first : NodeId := ⟨2, 0⟩
    let second : NodeId := ⟨3, 0⟩
    let third : NodeId := ⟨4, 0⟩
    (∃ t', t.insertAfter first third = (.ok (), t') ∧ t.PlacedBehind t' list first third) ∧
      ∃ t', t.insertAfter first second =
        (.error (.notAChild (t.describe list) (t.describe second)), t') ∧
          t.Detached t' second := by
  intro t list first second third
  have hpermits : (empty : HostTree Unit).RunPermits threeItems := by
    refine ⟨⟨fun p hp => ?_, nofun⟩, ⟨fun p hp => ?_, nofun⟩, ⟨fun p hp => ?_, nofun⟩,
      ⟨fun p hp => ?_, nofun⟩, trivial⟩ <;> exact Option.some.inj hp ▸ ⟨_, rfl⟩
  have h : t.Sound := sound_empty.run hpermits
  exact ⟨(insertAfter_places_unless_next h (p := list) rfl ⟨_, rfl⟩
      (not_below_of_children_nil rfl (by decide))).1 (by decide),
    (insertAfter_places_unless_next h (p := list) rfl ⟨_, rfl⟩
      (not_below_of_children_nil rfl (by decide))).2 rfl⟩

end ReactiveTemplate.HostTree
