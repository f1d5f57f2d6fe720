import ReactiveTemplate.Proofs.Document.Forests
import ReactiveTemplate.Proofs.Document.Removal

/-!
# Released subtrees

A release takes a node and all nodes below it away, and nothing else: its bound is never
reached, since no more nodes lie below a node than there are slots.

* `HostTree.releaseFrom_node?`, `HostTree.release_node?`: every node after a release.
* `HostTree.Sound.release`, `HostTree.Sound.setText`: releasing keeps documents sound.
* `HostTree.Shedding`: an element whose former children are still to be dropped.
-/

namespace ReactiveTemplate.HostTree

variable {α : Type} {t t' : HostTree α} {id p c x y : NodeId}

/-! ## Exact releases -/

/-- With enough steps all nodes of some subtrees are released. -/
theorem releaseFrom_node? (fuel : Nat) :
    ∀ {t : HostTree α} {bs : List (Branch NodeId)}, (∀ b ∈ bs, t.Holds b) →
      (bs.flatMap Branch.labels).Nodup → (bs.flatMap Branch.labels).length ≤ fuel →
        ∀ y, (releaseFrom fuel (bs.map Branch.label) t).node? y =
          if y ∈ bs.flatMap Branch.labels then none else t.node? y := by
  induction fuel with
  | zero =>
    intro t bs _ _ hfuel y
    rw [List.eq_nil_of_length_eq_zero (Nat.le_zero.1 hfuel), if_neg List.not_mem_nil]
    rfl
  | succ fuel ih =>
    intro t bs hbs hnodup hfuel y
    cases bs with
    | nil => rfl
    | cons b rest =>
      cases hbs b (by simp) with
      | @node id cs hlive hchildren hbelow =>
        obtain ⟨n, hn⟩ := hlive
        rw [List.flatMap_cons, Branch.labels_node, List.cons_append] at hnodup hfuel ⊢
        obtain ⟨hid, hnodup⟩ := List.nodup_cons.1 hnodup
        have hstack : n.children.reverse ++ rest.map Branch.label =
            (cs.reverse ++ rest).map Branch.label := by
          rw [← children_of_node? hn, hchildren, List.map_append, List.map_reverse]
        have hperm : ((cs.reverse ++ rest).flatMap Branch.labels).Perm
            (cs.flatMap Branch.labels ++ rest.flatMap Branch.labels) := by
          rw [List.flatMap_append]
          exact ((List.reverse_perm cs).flatMap_right _).append_right _
        have hholds : ∀ d ∈ cs.reverse ++ rest, (t.vacate id).Holds d := by
          intro d hd
          have hmem : ∀ x ∈ d.labels, x ∈ cs.flatMap Branch.labels ++ rest.flatMap Branch.labels :=
            fun x hx => hperm.subset (List.mem_flatMap.2 ⟨d, hd, hx⟩)
          have hheld : t.Holds d := by
            rcases List.mem_append.1 hd with hd | hd
            · exact hbelow d (List.mem_reverse.1 hd)
            · exact hbs d (List.mem_cons_of_mem _ hd)
          refine hheld.frame fun x hx => ?_
          rw [node?_vacate ⟨n, hn⟩, if_neg]
          rintro rfl
          exact hid (hmem x hx)
        rw [List.map_cons, Branch.label, releaseFrom, hn]
        dsimp only
        rw [hstack, ih hholds (hperm.symm.nodup hnodup) ?_ y, node?_vacate ⟨n, hn⟩]
        · by_cases hy : y = id
          · simp [hy]
          · simp only [hperm.mem_iff, List.mem_cons, hy, false_or, if_false]
        · rw [hperm.length_eq]
          exact Nat.le_of_succ_le_succ hfuel

/-- A release takes exactly the nodes below a node away. -/
theorem release_node? (hl : t.Linked) (ha : t.Acyclic) (hid : t.Live id) (y : NodeId) :
    (t.Below id y → (t.release id).node? y = none) ∧
      (¬ t.Below id y → (t.release id).node? y = t.node? y) := by
  obtain ⟨b, rfl, hb⟩ := exists_holds hl ha hid
  have hlabels : [b].flatMap Branch.labels = b.labels := List.flatMap_singleton _ b
  have hrelease : (t.release b.label).node? y =
      if y ∈ [b].flatMap Branch.labels then none else t.node? y := by
    refine @releaseFrom_node? α t.slots.size t [b] (fun d hd => ?_) ?_ ?_ y
    · rwa [List.mem_singleton.1 hd]
    · rw [hlabels]
      exact hb.nodup hl
    · rw [hlabels]
      exact hb.length_le hl
  rw [hrelease, hlabels, ← hb.mem_labels_iff]
  exact ⟨fun hy => if_pos hy, fun hy => if_neg hy⟩

/-! ## Documents after a release -/

/-- What is left after releasing a node that nobody lists. -/
structure Pruned (t t' : HostTree α) (id : NodeId) : Prop where
  linked : t'.Linked
  acyclic : t'.Acyclic
  complete : t'.Complete
  gone : ∀ y, t.Below id y → t'.node? y = none
  kept : ∀ y, ¬ t.Below id y → t'.node? y = t.node? y

theorem release_pruned (hl : t.Linked) (ha : t.Acyclic) (hcomplete : t.Complete) (hid : t.Live id)
    (hloose : t.Loose id) (hroot : id ≠ root) : t.Pruned (t.release id) id := by
  have hr := release_spec hl hloose hroot
  refine ⟨hr.linked, ha.mono fun q x hx => ?_, hcomplete.releaseFrom _,
    fun y => (release_node? hl ha hid y).1, fun y => (release_node? hl ha hid y).2⟩
  rw [children_eq_of_node?_eq (hr.rest q (live_of_mem_children hx))] at hx
  exact hx

/-- A node that is left has the parent it had, and that is left too. -/
theorem Pruned.parent? (h : t.Pruned t' id) (hparent : t'.parent? x = some p) :
    ¬ t.Below id x ∧ t.parent? x = some p := by
  have hx : ¬ t.Below id x := by
    intro hbelow
    rw [parent?_of_node?_none (h.gone x hbelow)] at hparent
    cases hparent
  exact ⟨hx, (parent?_eq_of_node?_eq (h.kept x hx)).symm.trans hparent⟩

/-- A child that is left is listed. -/
theorem Pruned.mem_children (h : t.Pruned t' id) (hx : ¬ t.Below id x) (hmem : x ∈ t.children p) :
    x ∈ t'.children p := by
  rwa [children_eq_of_node?_eq (h.kept p fun hbelow => hx (hbelow.tail hmem))]

theorem Sound.release (h : t.Sound) (hid : t.Live id) (hfree : t.parent? id = none)
    (hroot : id ≠ root) : (t.release id).Sound := by
  have hl := h.tree.linked
  have hp := release_pruned hl h.tree.acyclic h.complete hid (hl.loose hfree) hroot
  refine ⟨⟨hp.linked, fun {x q} hparent => ?_, hp.acyclic⟩, hp.complete⟩
  obtain ⟨hx, hparent⟩ := hp.parent? hparent
  exact hp.mem_children hx (h.tree.listed hparent)

/-! ## Emptied elements -/

/-- A document in which some former children of an element, which has no others, are still to be
    dropped. -/
structure Shedding (t : HostTree α) (id : NodeId) (rest : List NodeId) : Prop where
  linked : t.Linked
  acyclic : t.Acyclic
  complete : t.Complete
  live : t.Live id
  empty : t.children id = []
  nodup : rest.Nodup
  shed : ∀ c ∈ rest, t.parent? c = some id ∧ ¬ t.Below c id
  listed : ∀ {c p}, t.parent? c = some p → c ∈ t.children p ∨ c ∈ rest

theorem Sound.shedding (h : t.Sound) (hid : t.Live id) :
    (t.relist id fun _ => []).Shedding id (t.children id) := by
  have hl := h.tree.linked
  have hchildren := children_relist hid fun _ => []
  have hparent := parent?_relist t id fun _ => []
  have hfewer : ∀ q, (t.relist id fun _ => []).children q ⊆ t.children q := by
    intro q x hx
    rw [hchildren] at hx
    split at hx
    · cases hx
    · exact hx
  refine ⟨⟨live_relist hl.rooted id _, (hparent root).trans hl.top, hl.free.modify id _,
    fun {q x} hx => ?_, fun q => ?_⟩, h.tree.acyclic.mono hfewer, h.complete.modify id _,
    live_relist hid id _, by rw [hchildren, if_pos rfl], hl.nodup id, fun x hx => ?_,
    fun {x q} hx => ?_⟩
  · rw [hparent]
    exact hl.child (hfewer q hx)
  · rw [hchildren]
    split
    · exact List.nodup_nil
    · exact hl.nodup q
  · rw [hparent]
    exact ⟨hl.child hx, fun hbelow => h.tree.acyclic.not_below hx (Below.mono hfewer hbelow)⟩
  · rw [hparent] at hx
    have hmem := h.tree.listed hx
    rw [hchildren]
    split
    · next heq => exact .inr (heq ▸ hmem)
    · exact .inl hmem

theorem Shedding.sound (h : t.Shedding id []) : t.Sound :=
  ⟨⟨h.linked, fun hx => (h.listed hx).resolve_right List.not_mem_nil, h.acyclic⟩, h.complete⟩

/-- One former child less. -/
theorem Shedding.dropChild {rest : List NodeId} (h : t.Shedding id (c :: rest)) :
    (t.dropChild c).Shedding id rest := by
  obtain ⟨hcrest, hnodup⟩ := List.nodup_cons.1 h.nodup
  obtain ⟨hparent, habove⟩ := h.shed c List.mem_cons_self
  have hl := h.linked
  have hc : t.Live c := live_of_parent? hparent
  have hloose : t.Loose c := by
    intro q hq
    have heq : q = id := Option.some.inj ((hl.child hq).symm.trans hparent)
    rw [heq, h.empty] at hq
    cases hq
  have hroot : c ≠ root := by
    rintro rfl
    rw [hl.top] at hparent
    cases hparent
  have hne : ∀ x ∈ rest, x ≠ c := fun x hx heq => hcrest (heq ▸ hx)
  obtain ⟨n, hn⟩ := hc
  rw [HostTree.dropChild, hn]
  dsimp only
  split
  · have hp := release_pruned hl h.acyclic h.complete ⟨n, hn⟩ hloose hroot
    have hid := hp.kept id habove
    have hfewer : ∀ q, (t.release c).children q ⊆ t.children q := by
      intro q x hx
      by_cases hq : t.Below c q
      · rw [children_of_node?_none (hp.gone q hq)] at hx
        cases hx
      · rwa [children_eq_of_node?_eq (hp.kept q hq)] at hx
    refine ⟨hp.linked, hp.acyclic, hp.complete, h.live.of_node? hid, ?_, hnodup, fun x hx => ?_,
      fun {x q} hx => ?_⟩
    · rw [children_eq_of_node?_eq hid, h.empty]
    · obtain ⟨hx', habove'⟩ := h.shed x (List.mem_cons_of_mem c hx)
      refine ⟨?_, fun hbelow => habove' (Below.mono hfewer hbelow)⟩
      rw [parent?_eq_of_node?_eq (hp.kept x fun hbelow => ?_), hx']
      obtain ⟨q, hq, hbelow⟩ := hl.below_parent hbelow (hne x hx)
      rw [hx', Option.some.injEq] at hq
      exact habove (hq ▸ hbelow)
    · obtain ⟨hkept, hx⟩ := hp.parent? hx
      rcases h.listed hx with hmem | hmem
      · exact .inl (hp.mem_children hkept hmem)
      · refine .inr ((List.mem_cons.1 hmem).resolve_left fun heq => hkept ?_)
        exact heq ▸ Below.refl t x
  · show (t.reparent c none).Shedding id rest
    have hchildren := children_reparent t c none
    have hp := parent?_reparent (t := t) ⟨n, hn⟩ none
    have hfewer : ∀ q, (t.reparent c none).children q ⊆ t.children q := fun q x hx =>
      hchildren q ▸ hx
    refine ⟨hl.reparent_none ⟨n, hn⟩ hloose, h.acyclic.mono hfewer, h.complete.modify c _,
      live_reparent h.live c none, (hchildren id).trans h.empty, hnodup, fun x hx => ?_,
      fun {x q} hx => ?_⟩
    · obtain ⟨hx', habove'⟩ := h.shed x (List.mem_cons_of_mem c hx)
      rw [hp, if_neg (hne x hx)]
      exact ⟨hx', fun hbelow => habove' (Below.mono hfewer hbelow)⟩
    · rw [hp] at hx
      split at hx
      · cases hx
      · next hxc =>
        rw [hchildren]
        exact (h.listed hx).imp_right fun hmem => (List.mem_cons.1 hmem).resolve_left hxc

theorem Shedding.dropAll {rest : List NodeId} (h : t.Shedding id rest) :
    (rest.foldl HostTree.dropChild t).Shedding id [] := by
  induction rest generalizing t with
  | nil => exact h
  | cons c rest ih => exact ih h.dropChild

theorem Sound.setText (h : t.Sound) {text : String} (hset : t.setText id text = .ok t') :
    t'.Sound := by
  obtain ⟨n, hn, ⟨-, rfl⟩ | rfl⟩ := setText_cases hset
  · have hshed := (h.shedding ⟨n, hn⟩).dropAll
    split
    · exact hshed.sound
    · exact hshed.sound.append hshed.live rfl
  · exact h.touch id (fun _ => rfl) fun _ => rfl

end ReactiveTemplate.HostTree
