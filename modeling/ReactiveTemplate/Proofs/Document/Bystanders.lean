import ReactiveTemplate.Proofs.Document.Ages
import ReactiveTemplate.Proofs.Document.Clearing

/-!
# Nodes that changes pass by

A change of place is felt by the nodes that it moves and by their parents, old and new. Guarded nodes
that are none of these stay as they are, and no other node gets a parent.

* `HostTree.Beside.mono`: fewer nodes stay as well.
* `HostTree.Exchanged`, `HostTree.replace_cases`: the outcomes of putting a node into the place of
  another.
* `HostTree.Exchanged.beside`, `HostTree.Cleared.beside`: what changes of place leave alone.
* `HostTree.parent?_setText`: a new text gives no parent to a node.
-/

namespace ReactiveTemplate.HostTree

variable {α : Type} {t t' : HostTree α} {P Q : NodeId → Prop} {id p c old new anchor x y : NodeId}
  {ids : List NodeId}

theorem Beside.mono (h : Beside Q t t') (hsub : ∀ y, P y → Q y) : Beside P t t' :=
  ⟨h.sound, fun y hy => h.same y (hsub y hy)⟩

/-! ## Replacing -/

/-- What putting a node into the place of another below `p` does. -/
structure Exchanged (t t' : HostTree α) (p old new : NodeId) : Prop where
  sound : t'.Sound
  content : ∀ x, t'.content x = t.content x
  parent : ∀ x, t'.parent? x = if x = old then none else if x = new then some p else t.parent? x
  children : ∀ q, q ≠ p → t.parent? new ≠ some q → t'.children q = t.children q

/-- A node goes into the place of another, or all stays as it is. -/
theorem replace_cases (h : t.Sound) (hne : old ≠ new)
    (hput : ∀ p, t.parent? old = some p → new ≠ root ∧ ¬ t.Below new p) :
    (∃ e, t.replace old new = (.error e, t)) ∨
      ∃ p t', t.parent? old = some p ∧ t.replace old new = (.ok (), t') ∧
        t.Exchanged t' p old new := by
  cases hold : t.node? old with
  | none => exact .inl ⟨_, by rw [HostTree.replace, get_dead hold]⟩
  | some n =>
    cases hp : t.parent? old with
    | none => exact .inl ⟨_, replace_loose ⟨n, hold⟩ hp new⟩
    | some p =>
      cases hnew : t.node? new with
      | none =>
        refine .inl ⟨.unknownNode new.index, ?_⟩
        rw [parent?_of_node? hold] at hp
        simp only [HostTree.replace, get_of_node? hold, hp, detach_dead hnew]
      | some m =>
        obtain ⟨hroot, habove⟩ := hput p hp
        obtain ⟨t₁, hdetach, hd⟩ := detach_spec h ⟨m, hnew⟩
        have hp₁ : t₁.parent? old = some p := by rw [hd.parent, if_neg hne, hp]
        obtain ⟨t', hreplace, hswap, hparent⟩ := replace_swaps hd.sound hp₁ (hd.live ⟨m, hnew⟩)
          hd.free hroot (hd.not_above habove)
        refine .inr ⟨p, t', rfl, ?_, hswap.sound, fun x => ?_, fun x => ?_, fun q hqp hq => ?_⟩
        · rw [hd.replace hdetach ⟨m, hnew⟩ hp hne, hreplace]
        · rw [hswap.content, hd.content]
        · rw [hparent, hd.parent]
          split
          · rfl
          · split
            · rfl
            · rfl
        · rw [hswap.children, hd.sound.tree.linked.flatMap_swap_of_ne hp₁ hqp, hd.children]
          refine List.filter_eq_self.2 fun z hz => bne_iff_ne.2 ?_
          rintro rfl
          exact hq (h.tree.linked.child hz)

/-! ## What is left alone -/

theorem Exchanged.beside (h : t.Exchanged t' p old new) (hguard : Guarded P t)
    (hold : t.parent? old = some p) (hp : ¬ P p) (hnew : ¬ P new)
    (hfrom : ∀ q, t.parent? new = some q → ¬ P q) : Beside P t t' := by
  refine ⟨h.sound, fun y hy => ?_⟩
  have hyold : y ≠ old := by
    rintro rfl
    exact hp (hguard.above y p hy hold)
  have hynew : y ≠ new := by
    rintro rfl
    exact hnew hy
  refine node?_eq_of_content_eq (h.content y) ?_ (h.children y ?_ fun hq => hfrom y hq hy)
  · rw [h.parent, if_neg hyold, if_neg hynew]
  · rintro rfl
    exact hp hy

theorem Cleared.beside (h : t.Cleared t' ids) (hl : t.Linked) (hguard : Guarded P t)
    (hids : ∀ c ∈ ids, ¬ P c ∧ ∀ p, t.parent? c = some p → ¬ P p) : Beside P t t' := by
  refine ⟨h.sound, fun y hy => ?_⟩
  obtain ⟨hcontent, hparent, hchildren⟩ := h.kept y fun c hc _ hbelow =>
    (hids c hc).1 (hguard.of_below hl hbelow hy)
  refine node?_eq_of_content_eq hcontent hparent (hchildren.trans ?_)
  refine List.filter_eq_self.2 fun z hz => decide_eq_true fun hmem => ?_
  exact (hids z hmem).2 y (hl.child hz) hy

/-- Destroying nodes gives no parent to any node. -/
theorem Cleared.parent?_eq (h : t.Cleared t' ids) (hy : t'.Live y) :
    t.Live y ∧ t'.parent? y = t.parent? y :=
  ⟨(h.left y hy).1, (h.kept y (h.left y hy).2).2.1⟩

/-- A node that goes with the content of an element does not come back with its new text. -/
theorem Stripped.not_live_refill {dropped : HostTree α} (h : t.Stripped dropped id)
    (hemptied : EachSlot SlotEmptied t dropped) (hy : t.Live y)
    (hclear : ¬ t.ClearOf (t.children id) y) (text : String) :
    ¬ (if text = "" then dropped else (dropped.appendText id text).2).Live y := by
  split
  · exact h.gone y hclear
  · -- The text may be put into the slot of the node, but in a later generation.
    have haged : t.AgedBy 1 dropped := (hemptied.age (touched_refl dropped).filled).agedBy_one
    exact haged.stays_dead (filled_append dropped id _).agedBy_zero hy (h.gone y hclear) (by decide)

/-- A node that is left by a new text has the parent it had, or none. -/
theorem parent?_setText (h : t.Sound) {text : String} (hset : t.setText id text = .ok t')
    (hy : t.Live y) (hy' : t'.Live y) : t'.parent? y = none ∨ t'.parent? y = t.parent? y := by
  by_cases hclear : t.ClearOf (t.children id) y
  · exact (setText_keeps h hset hy hclear).1.parent
  obtain ⟨n, hn, ⟨-, rfl⟩ | rfl⟩ := setText_cases hset
  · exact absurd hy' ((h.strip ⟨n, hn⟩).not_live_refill (emptied_strip t id) hy hclear text)
  · have hkeeps : Keeps t (t.modify id fun n => { n with data := text }) y :=
      .modify hy (fun _ => rfl) (fun _ => rfl) fun _ => rfl
    exact hkeeps.parent

end ReactiveTemplate.HostTree
