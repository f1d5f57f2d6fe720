import ReactiveTemplate.Proofs.Document.Copies
import ReactiveTemplate.Proofs.Document.Releases

/-!
# Operations on documents

Every operation leaves a sound document sound, whether it succeeds or fails after a part of its
work.

* `HostTree.Detached`, `HostTree.detach_spec`: taking a node out of its parent.
* `HostTree.Sound.insertBefore`, `HostTree.Sound.replace`, `HostTree.Sound.destroy`,
  `HostTree.Sound.cloneNode`: the composed operations.
* `HostTree.detach_dead`: no operation takes out what is not there.
-/

namespace ReactiveTemplate.HostTree

variable {α : Type} {t t' : HostTree α} {id p c old new x y : NodeId}

/-! ## Taking out -/

/-- What taking a node out of its parent does; nothing where it has none. -/
structure Detached (t t' : HostTree α) (id : NodeId) : Prop where
  sound : t'.Sound
  content : ∀ x, t'.content x = t.content x
  children : ∀ q, t'.children q = (t.children q).filter (· != id)
  parent : ∀ x, t'.parent? x = if x = id then none else t.parent? x

theorem get_dead (h : t.node? id = none) : t.get id = .error (.unknownNode id.index) := by
  rw [get, h]

theorem detach_dead (h : t.node? id = none) : t.detach id = .error (.unknownNode id.index) := by
  rw [detach, get_dead h]
  rfl

/-- Names that are not listed are not missed. -/
theorem filter_loose (h : t.Loose id) (q : NodeId) :
    (t.children q).filter (· != id) = t.children q := by
  refine List.filter_eq_self.2 fun x hx => ?_
  rw [bne_iff_ne]
  rintro rfl
  exact h q hx

theorem detach_spec (h : t.Sound) (hid : t.Live id) :
    ∃ t', t.detach id = .ok t' ∧ t.Detached t' id := by
  have hl := h.tree.linked
  cases hp : t.parent? id with
  | none =>
    refine ⟨t, detach_of_parent?_none hid hp, h, fun _ => rfl, fun q => ?_, fun x => ?_⟩
    · exact (filter_loose (hl.loose hp) q).symm
    · split
      · next heq => rw [heq, hp]
      · rfl
  | some p =>
    have hlive := h.tree.live_parent hp
    refine ⟨_, detach_of_parent? hp hlive, h.unhooked hp, content_unhooked t p id, fun q => ?_,
      parent?_unhooked hid p⟩
    rw [children_unhooked hlive]
    split
    · next heq => rw [heq]
    · next hne =>
      refine (List.filter_eq_self.2 fun x hx => ?_).symm
      rw [bne_iff_ne]
      rintro rfl
      exact hne (Option.some.inj ((hl.child hx).symm.trans hp))

theorem Detached.live (h : t.Detached t' id) (hx : t.Live x) : t'.Live x := hx.of_content (h.content x)

theorem Detached.fewer (h : t.Detached t' id) (q : NodeId) : t'.children q ⊆ t.children q := by
  rw [h.children]
  exact List.filter_subset_self _

theorem Detached.free (h : t.Detached t' id) : t'.parent? id = none := by
  rw [h.parent, if_pos rfl]

theorem Detached.not_above (h : t.Detached t' id) (hbelow : ¬ t.Below c p) : ¬ t'.Below c p :=
  fun hb => hbelow (Below.mono h.fewer hb)

theorem Sound.detach (h : t.Sound) (hdetach : t.detach id = .ok t') : t'.Sound := by
  cases hid : t.node? id with
  | none =>
    rw [detach_dead hid] at hdetach
    cases hdetach
  | some n =>
    obtain ⟨t₁, hdetach₁, hd⟩ := detach_spec h ⟨n, hid⟩
    rw [hdetach₁] at hdetach
    exact Except.ok.inj hdetach ▸ hd.sound

/-! ## Inserting -/

/-- A node goes before another one: what happens depends on whether that one is still a child. -/
theorem insertBefore_reference {reference : NodeId} (hp : t.Live p) (hdetach : t.detach c = .ok t') :
    t.insertBefore p c (some reference) =
      match (t'.children p).idxOf? reference with
      | some position => (.ok (), t'.attach p c position)
      | none => (.error (.notAChild (t'.describe p) (t'.describe reference)), t') := by
  obtain ⟨n, hn⟩ := hp
  cases hplace : (t'.children p).idxOf? reference <;>
    simp only [insertBefore, get_of_node? hn, hdetach, hplace]

/-- Only the other children of the parent are left to go before. -/
theorem Detached.idxOf?_eq_none {reference : NodeId} (h : t.Detached t' c) :
    (t'.children p).idxOf? reference = none ↔ reference = c ∨ reference ∉ t.children p := by
  rw [List.idxOf?_eq_none_iff, h.children, List.mem_filter, bne_iff_ne]
  tauto

theorem Sound.insertBefore (h : t.Sound) {reference : Option NodeId}
    (hput : (t.insertBefore p c reference).1 = .ok () → c ≠ root ∧ ¬ t.Below c p) :
    (t.insertBefore p c reference).2.Sound := by
  rw [HostTree.insertBefore] at hput ⊢
  cases hp : t.node? p with
  | none =>
    rw [get_dead hp]
    exact h
  | some parent =>
    rw [get_of_node? hp] at hput ⊢
    dsimp only at hput ⊢
    cases hc : t.node? c with
    | none =>
      rw [detach_dead hc]
      exact h
    | some child =>
      obtain ⟨t₁, hdetach, hd⟩ := detach_spec h ⟨child, hc⟩
      rw [hdetach] at hput ⊢
      dsimp only at hput ⊢
      have hattach : ∀ {position : Nat}, (c ≠ root ∧ ¬ t.Below c p) →
          position ≤ (t₁.children p).length → (t₁.attach p c position).Sound := by
        rintro position ⟨hroot, habove⟩ hposition
        exact hd.sound.attach (hd.live ⟨parent, hp⟩) (hd.live ⟨child, hc⟩) hd.free hroot
          (hd.not_above habove) hposition
      cases reference with
      | none => exact hattach (hput rfl) (Nat.le_refl _)
      | some reference =>
        dsimp only at hput ⊢
        cases hidx : (t₁.children p).idxOf? reference with
        | none => exact hd.sound
        | some position =>
          rw [hidx] at hput
          refine hattach (hput rfl) ?_
          obtain ⟨hlt, -⟩ := List.findIdx?_eq_some_iff_getElem.1 hidx
          exact hlt.le

theorem Sound.insertAfter (h : t.Sound) {anchor : NodeId}
    (hput : (t.insertAfter anchor c).1 = .ok () →
      ∀ p, t.parent? anchor = some p → c ≠ root ∧ ¬ t.Below c p) :
    (t.insertAfter anchor c).2.Sound := by
  rw [HostTree.insertAfter] at hput ⊢
  cases hp : t.parent? anchor with
  | none => exact h
  | some p =>
    rw [hp] at hput
    exact h.insertBefore fun hok => hput hok p rfl

/-! ## Replacing -/

/-- A node without a parent has no place for another. -/
theorem replace_loose (h : t.Live old) (hparent : t.parent? old = none) (new : NodeId) :
    t.replace old new = (.error (.detached (t.describe old)), t) := by
  obtain ⟨n, hn⟩ := h
  rw [parent?_of_node? hn] at hparent
  simp only [HostTree.replace, get_of_node? hn, hparent]

theorem Sound.complete_replace (h : t.Sound) : (t.replace old new).2.Complete := by
  rw [HostTree.replace]
  split
  · exact h.complete
  · split
    · exact h.complete
    · split
      · exact h.complete
      · next hdetach =>
        have hcomplete := (h.detach hdetach).complete
        split
        · exact hcomplete
        · split
          · exact hcomplete
          · exact ((hcomplete.modify _ _).modify _ _).modify _ _

/-- A node without a parent in the place of another. -/
theorem Sound.exchange (h : t.Sound) {front back : List NodeId}
    (hchildren : t.children p = front ++ old :: back) (hnew : t.Live new)
    (hfree : t.parent? new = none) (hroot : new ≠ root) (habove : ¬ t.Below new p) :
    (t.replace old new).2.Sound := by
  have hl := h.tree.linked
  obtain ⟨t', hreplace, hr⟩ := replace_spec hl hchildren hnew hfree hroot
  have hcomplete : (t.replace old new).2.Complete := h.complete_replace
  rw [hreplace] at hcomplete ⊢
  refine ⟨⟨hr.linked, fun {x q} hx => ?_, h.tree.acyclic.link (fun q x hx => ?_) habove⟩, hcomplete⟩
  · rw [hr.parent] at hx
    rw [hr.children]
    split at hx
    · cases hx
    · next hne =>
      split at hx
      · next heq => simp [heq, (Option.some.inj hx).symm]
      · have hmem := h.tree.listed hx
        split
        · next heq =>
          rw [heq, hchildren] at hmem
          simp only [List.mem_append, List.mem_cons] at hmem ⊢
          exact hmem.imp_right fun hmem => .inr (hmem.resolve_left hne)
        · exact hmem
  · rw [hr.children] at hx
    split at hx
    · next heq =>
      rw [heq, hchildren]
      simp only [List.mem_append, List.mem_cons] at hx ⊢
      rcases hx with hx | rfl | hx
      · exact .inl (.inl hx)
      · exact .inr ⟨trivial, rfl⟩
      · exact .inl (.inr (.inr hx))
    · exact .inl hx

/-- Replacing by a node is replacing by it once it has no parent. -/
theorem Detached.replace (h : t.Detached t' new) (hdetach : t.detach new = .ok t')
    (hnew : t.Live new) (hold : t.parent? old = some p) (hne : old ≠ new) :
    t.replace old new = t'.replace old new := by
  have hold' : t'.parent? old = some p := by rw [h.parent, if_neg hne, hold]
  obtain ⟨n, hn⟩ := live_of_parent? hold
  obtain ⟨n', hn'⟩ := live_of_parent? hold'
  have hagain : t'.detach new = .ok t' := detach_of_parent?_none (h.live hnew) h.free
  rw [parent?_of_node? hn] at hold
  rw [parent?_of_node? hn'] at hold'
  simp only [HostTree.replace, get_of_node? hn, get_of_node? hn', hold, hold', hdetach, hagain]

theorem Sound.replace (h : t.Sound)
    (hput : (t.replace old new).1 = .ok () →
      ∀ p, t.parent? old = some p → new ≠ root ∧ ¬ t.Below new p) :
    (t.replace old new).2.Sound := by
  cases hold : t.node? old with
  | none =>
    rw [HostTree.replace, get_dead hold]
    exact h
  | some n =>
    cases hparent : t.parent? old with
    | none =>
      rw [parent?_of_node? hold] at hparent
      simp only [HostTree.replace, get_of_node? hold, hparent]
      exact h
    | some p =>
      cases hnew : t.node? new with
      | none =>
        rw [parent?_of_node? hold] at hparent
        simp only [HostTree.replace, get_of_node? hold, hparent, detach_dead hnew]
        exact h
      | some m =>
        obtain ⟨t₁, hdetach, hd⟩ := detach_spec h ⟨m, hnew⟩
        obtain ⟨q, hq⟩ := hd.live (h.tree.live_parent hparent)
        by_cases hmem : old ∈ t₁.children p
        · have hne : old ≠ new := by
            rw [hd.children, List.mem_filter, bne_iff_ne] at hmem
            exact hmem.2
          obtain ⟨front, back, hchildren⟩ := List.append_of_mem hmem
          have hfront : old ∉ front := by
            intro hmem
            have hnodup := hd.sound.tree.linked.nodup p
            rw [hchildren] at hnodup
            exact (List.nodup_append.1 hnodup).2.2 old hmem old List.mem_cons_self rfl
          have hidx : q.children.idxOf? old = some front.length := by
            rw [← children_of_node? hq, hchildren, idxOf?_append hfront]
          have hok : (t.replace old new).1 = .ok () := by
            rw [parent?_of_node? hold] at hparent
            simp only [HostTree.replace, get_of_node? hold, hparent, hdetach, get_of_node? hq, hidx]
          obtain ⟨hroot, habove⟩ := hput hok p hparent
          rw [hd.replace hdetach ⟨m, hnew⟩ hparent hne]
          exact hd.sound.exchange hchildren (hd.live ⟨m, hnew⟩) hd.free hroot (hd.not_above habove)
        · have hidx : q.children.idxOf? old = none := by
            rw [← children_of_node? hq]
            exact List.idxOf?_eq_none_iff.2 hmem
          rw [parent?_of_node? hold] at hparent
          simp only [HostTree.replace, get_of_node? hold, hparent, hdetach, get_of_node? hq, hidx]
          exact hd.sound

/-! ## Releasing -/

theorem Sound.destroy (h : t.Sound) (hdestroy : t.destroy id = .ok t') : t'.Sound := by
  rw [HostTree.destroy] at hdestroy
  split at hdestroy
  · cases hdestroy
  · next hroot =>
    cases hid : t.node? id with
    | none =>
      rw [detach_dead hid] at hdestroy
      cases hdestroy
    | some n =>
      obtain ⟨t₁, hdetach, hd⟩ := detach_spec h ⟨n, hid⟩
      rw [hdetach] at hdestroy
      rw [← Except.ok.inj hdestroy]
      exact hd.sound.release (hd.live ⟨n, hid⟩) hd.free hroot

/-! ## Copying -/

theorem Complete.cloneEach {clone : HostTree α → NodeId → Except HostError NodeId × HostTree α}
    (hclone : ∀ (t : HostTree α) id, t.Complete → (clone t id).2.Complete) {ids : List NodeId} :
    ∀ {t : HostTree α}, t.Complete → (cloneEach clone p ids t).2.Complete := by
  induction ids with
  | nil => exact fun h => h
  | cons child ids ih =>
    intro t h
    have hcopy := hclone t child h
    rw [HostTree.cloneEach]
    rcases hc : clone t child with ⟨_ | copy, t₁⟩ <;> rw [hc] at hcopy
    · exact hcopy
    · exact ih ((hcopy.modify _ _).modify _ _)

theorem Complete.cloneWithin (depth : Nat) :
    ∀ {t : HostTree α} {id : NodeId}, t.Complete → (cloneWithin depth t id).2.Complete := by
  induction depth with
  | zero => exact fun h => h
  | succ depth ih =>
    intro t id h
    rw [HostTree.cloneWithin]
    cases t.get id with
    | error e => exact h
    | ok n =>
      let node : Node α := { n with parent := none, children := [], listeners := [] }
      have heach : (HostTree.cloneEach (HostTree.cloneWithin depth) (t.allocate node).1 n.children
          (t.allocate node).2).2.Complete := Complete.cloneEach (fun _ _ => ih) (h.allocate node)
      dsimp only
      split <;> next heq => rw [heq] at heach; exact heach

/-- A document with a copy of a subtree. -/
theorem Copied.sound {b copy : Branch NodeId} (h : t.Sound) (hcopy : t.Copied t' b copy)
    (hcomplete : t'.Complete) : t'.Sound := by
  have hl := h.tree.linked
  have hold : ∀ y, t.Live y → Acc (fun c p => c ∈ t'.children p) y := by
    intro y
    induction y using h.tree.acyclic.induction with
    | _ y ih =>
      refine fun hy => ⟨y, fun x hx => ?_⟩
      rw [children_eq_of_node?_eq (hcopy.kept y hy)] at hx
      exact ih x hx (hl.live hx)
  have hheld : ∀ {d : Branch NodeId}, t'.Holds d → Acc (fun c p => c ∈ t'.children p) d.label := by
    intro d hd
    induction d using Branch.induction with
    | h id bs ih =>
      cases hd with
      | node _ hchildren hbelow =>
        refine ⟨id, fun x hx => ?_⟩
        rw [hchildren] at hx
        obtain ⟨d, hd, rfl⟩ := List.mem_map.1 hx
        exact ih d hd (hbelow d hd)
  refine ⟨⟨hcopy.linked, fun {x q} hx => ?_, ⟨fun y => ?_⟩⟩, hcomplete⟩
  · rcases hcopy.whole x (live_of_parent? hx) with hlive | hmem
    · rw [parent?_eq_of_node?_eq (hcopy.kept x hlive)] at hx
      have hmem := h.tree.listed hx
      rwa [children_eq_of_node?_eq (hcopy.kept q (live_of_mem_children hmem))]
    · have hbelow := hcopy.holds.mem_labels_iff.1 hmem
      rcases Relation.ReflTransGen.cases_tail hbelow with rfl | ⟨p, -, hxp⟩
      · rw [hcopy.loose] at hx
        cases hx
      · rwa [← Option.some.inj ((hcopy.linked.child hxp).symm.trans hx)]
  · by_cases hlive : t'.Live y
    · rcases hcopy.whole y hlive with hlive | hmem
      · exact hold y hlive
      · obtain ⟨d, rfl, -, hd⟩ := Holds.part (α := α) hmem
        exact hheld (hd t' hcopy.holds)
    · exact ⟨y, fun x hx => absurd (live_of_mem_children hx) hlive⟩

theorem Sound.cloneNode (h : t.Sound) : (t.cloneNode id).2.Sound := by
  cases hid : t.node? id with
  | none =>
    rw [HostTree.cloneNode, HostTree.cloneWithin, get_dead hid]
    exact h
  | some n =>
    have hcomplete : (t.cloneNode id).2.Complete := h.complete.cloneWithin _
    obtain ⟨b, rfl, hb⟩ := exists_holds h.tree.linked h.tree.acyclic ⟨n, hid⟩
    obtain ⟨copy, t', hclone, hcopy⟩ := cloneNode_spec h.tree.linked hb
    rw [hclone] at hcomplete ⊢
    exact hcopy.sound h hcomplete

end ReactiveTemplate.HostTree
