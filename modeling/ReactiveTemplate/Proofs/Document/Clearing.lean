import ReactiveTemplate.Proofs.Document.Guards
import ReactiveTemplate.Proofs.Document.Lifetimes

/-!
# Destroying many nodes

Some nodes are destroyed one after the other, whether or not they are still there. All of them are
gone afterwards with what was below them, and every other node is as it was.

* `HostTree.destroy_cases`: the two outcomes of destroying a node.
* `HostTree.Cleared`: what destroying many nodes does; `HostTree.destroyAll_clears`.
* `HostTree.destroyAll_fails_iff`: when one of them could not be destroyed.
-/

namespace ReactiveTemplate.HostTree

variable {α : Type} {t t' t'' : HostTree α} {ids : List NodeId} {c x y : NodeId}

/-- What contains a node of the document is one itself. -/
theorem Below.live_above (h : t.Below x y) (hy : t.Live y) : t.Live x := by
  rcases Relation.ReflTransGen.cases_head h with rfl | ⟨z, hz, -⟩
  · exact hy
  · exact live_of_mem_children hz

/-- A node that is there and is not the top can be destroyed, and no other. -/
theorem destroy_cases (h : t.Sound) (c : NodeId) :
    (∃ e, t.destroy c = .error e ∧ (c = root ∨ ¬ t.Live c)) ∨
      ∃ t', t.destroy c = .ok t' ∧ t.Live c ∧ c ≠ root ∧ t.Removed t' c ∧
        ∀ y, t.Below c y → ¬ t'.Live y := by
  by_cases hroot : c = root
  · exact .inl ⟨_, by rw [HostTree.destroy, if_pos hroot], .inl hroot⟩
  cases hn : t.node? c with
  | none =>
    have hdestroy : t.destroy c = .error (.unknownNode c.index) := by
      rw [HostTree.destroy, if_neg hroot, detach_dead hn]
      rfl
    exact .inl ⟨_, hdestroy, .inr (not_live_iff.2 hn)⟩
  | some n =>
    have hc : t.Live c := ⟨n, hn⟩
    obtain ⟨t₁, hdestroy, hremoved⟩ := destroy_removed h hc hroot
    obtain ⟨t₂, hdestroy₂, hgone, -⟩ := h.destroys hc hroot
    obtain rfl : t₁ = t₂ := Except.ok.inj (hdestroy.symm.trans hdestroy₂)
    refine .inr ⟨t₁, hdestroy, hc, hroot, hremoved, ?_⟩
    rintro y hbelow ⟨m, hm⟩
    rw [hgone y hbelow] at hm
    cases hm

/-- What is not below the removed node is where it was. -/
theorem Removed.below (h : t.Removed t' c) (hy : ¬ t.Below c y) (hbelow : t.Below x y) :
    t'.Below x y := by
  induction hbelow with
  | refl => exact Below.refl t' x
  | @tail p d _ hd ih =>
    have hp : ¬ t.Below c p := fun hp => hy (hp.tail hd)
    refine (ih hp).tail ?_
    rw [h.children p hp, List.mem_filter, bne_iff_ne]
    exact ⟨hd, fun heq => hy (heq ▸ Below.refl t c)⟩

/-- Where the nodes below the removed one are gone, no node has new children. -/
theorem Removed.fewer (h : t.Removed t' c) (hgone : ∀ y, t.Below c y → ¬ t'.Live y) (q : NodeId) :
    t'.children q ⊆ t.children q := by
  intro z hz
  rw [h.children q fun hbelow => hgone q hbelow (live_of_mem_children hz)] at hz
  exact (List.mem_filter.1 hz).1

/-- What destroying some nodes does, of which each may be gone already. -/
structure Cleared (t t' : HostTree α) (ids : List NodeId) : Prop where
  sound : t'.Sound
  kept : ∀ y, (∀ c ∈ ids, c ≠ root → ¬ t.Below c y) →
    t'.content y = t.content y ∧ t'.parent? y = t.parent? y ∧
      t'.children y = (t.children y).filter (· ∉ ids)
  left : ∀ y, t'.Live y → t.Live y ∧ ∀ c ∈ ids, c ≠ root → ¬ t.Below c y

namespace Cleared

theorem fewer (h : t.Cleared t' ids) (q : NodeId) : t'.children q ⊆ t.children q := by
  intro z hz
  rw [(h.kept q (h.left q (live_of_mem_children hz)).2).2.2] at hz
  exact (List.mem_filter.1 hz).1

/-- A node that is not there, or the top, need not be destroyed. -/
theorem refused (hl : t.Linked) (hc : c = root ∨ ¬ t.Live c) (h : t.Cleared t' ids) :
    t.Cleared t' (c :: ids) := by
  have hchild : ∀ q, c ∉ t.children q := by
    intro q hmem
    rcases hc with rfl | hdead
    · exact hl.ne_root hmem rfl
    · exact hdead (hl.live hmem)
  refine ⟨h.sound, fun y hy => ?_, fun y hy => ?_⟩
  · obtain ⟨hcontent, hparent, hchildren⟩ := h.kept y fun d hd => hy d (List.mem_cons_of_mem _ hd)
    refine ⟨hcontent, hparent, hchildren.trans (List.filter_congr fun d hd => ?_)⟩
    have hne : d ≠ c := fun heq => hchild y (heq ▸ hd)
    simp [hne]
  · obtain ⟨hlive, hout⟩ := h.left y hy
    refine ⟨hlive, fun d hd hroot hbelow => ?_⟩
    rcases List.mem_cons.1 hd with rfl | hd
    · exact (hc.resolve_left hroot) (hbelow.live_above hlive)
    · exact hout d hd hroot hbelow

/-- One node is destroyed, and then others. -/
theorem cons (hremoved : t.Removed t' c) (hroot : c ≠ root)
    (hgone : ∀ y, t.Below c y → ¬ t'.Live y) (h : t'.Cleared t'' ids) :
    t.Cleared t'' (c :: ids) := by
  have hfewer := hremoved.fewer hgone
  refine ⟨h.sound, fun y hy => ?_, fun y hy => ?_⟩
  · have hyc : ¬ t.Below c y := hy c List.mem_cons_self hroot
    obtain ⟨hcontent, hparent, hchildren⟩ := h.kept y fun d hd hroot' hbelow =>
      hy d (List.mem_cons_of_mem _ hd) hroot' (Below.mono hfewer hbelow)
    refine ⟨hcontent.trans (hremoved.content y hyc), hparent.trans (hremoved.parent y hyc), ?_⟩
    rw [hchildren, hremoved.children y hyc, List.filter_filter]
    refine List.filter_congr fun d _ => ?_
    rw [Bool.eq_iff_iff]
    simp [and_comm]
  · obtain ⟨hlive', hout'⟩ := h.left y hy
    have hyc : ¬ t.Below c y := fun hbelow => hgone y hbelow hlive'
    refine ⟨hlive'.of_content (hremoved.content y hyc).symm, fun d hd hroot' hbelow => ?_⟩
    rcases List.mem_cons.1 hd with rfl | hd
    · exact hyc hbelow
    · exact hout' d hd hroot' (hremoved.below hyc hbelow)

end Cleared

/-- Destroying nodes one after the other clears them away. -/
theorem destroyAll_clears (ids : List NodeId) : ∀ {t : HostTree α}, t.Sound →
    t.Cleared (despiteFailures destroy ids t).2 ids := by
  induction ids with
  | nil =>
    intro t h
    refine ⟨h, fun y _ => ⟨rfl, rfl, ?_⟩, fun y hy => ⟨hy, nofun⟩⟩
    simp [despiteFailures]
  | cons c ids ih =>
    intro t h
    rw [despiteFailures]
    obtain ⟨e, hdestroy, hc⟩ | ⟨t₁, hdestroy, -, hroot, hremoved, hgone⟩ := destroy_cases h c
    · rw [hdestroy]
      exact (ih h).refused h.tree.linked hc
    · rw [hdestroy]
      exact .cons hremoved hroot hgone (ih hremoved.sound)

/-- Of nodes that lie apart, all can be destroyed unless one is gone already. -/
theorem destroyAll_fails_iff : ∀ {t : HostTree α}, t.Sound → (∀ c ∈ ids, c ≠ root) →
    ids.Pairwise (fun c d => ¬ t.Below c d) →
      ((despiteFailures destroy ids t).1.isSome ↔ ∃ c ∈ ids, ¬ t.Live c) := by
  induction ids with
  | nil => simp [despiteFailures]
  | cons c ids ih =>
    intro t h hroot hapart
    obtain ⟨hout, hapart⟩ := List.pairwise_cons.1 hapart
    have hroot' : ∀ d ∈ ids, d ≠ root := fun d hd => hroot d (List.mem_cons_of_mem _ hd)
    rw [despiteFailures]
    obtain ⟨e, hdestroy, hc⟩ | ⟨t₁, hdestroy, hlive, -, hremoved, hgone⟩ := destroy_cases h c
    · rw [hdestroy]
      exact iff_of_true rfl
        ⟨c, List.mem_cons_self, hc.resolve_left (hroot c List.mem_cons_self)⟩
    · have hsame : ∀ d ∈ ids, (t₁.Live d ↔ t.Live d) := fun d hd =>
        ⟨fun hd' => hd'.of_content (hremoved.content d (hout d hd)).symm,
          fun hd' => hd'.of_content (hremoved.content d (hout d hd))⟩
      have hfewer := hremoved.fewer hgone
      rw [hdestroy]
      dsimp only
      rw [ih hremoved.sound hroot' (hapart.imp fun hnot hbelow => hnot (Below.mono hfewer hbelow))]
      constructor
      · rintro ⟨d, hd, hdead⟩
        exact ⟨d, List.mem_cons_of_mem _ hd, fun hd' => hdead ((hsame d hd).2 hd')⟩
      · rintro ⟨d, hd, hdead⟩
        rcases List.mem_cons.1 hd with rfl | hd
        · exact absurd hlive hdead
        · exact ⟨d, hd, fun hd' => hdead ((hsame d hd).1 hd')⟩

end ReactiveTemplate.HostTree
