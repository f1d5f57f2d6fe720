import ReactiveTemplate.Proofs.Document.Bystanders
import ReactiveTemplate.Proofs.Engine.Restoring

/-!
# Nodes and their homes

Whatever bindings do, a node of the first document is below its first parent or on its own, and what a
binding has made is below the first parent of its element or on its own. This holds of all bindings,
also of those whose elements go with a text, as long as the names of the nodes that are gone do not
come round.

* `Homed`: the invariant, and what lies above such nodes.
* `NamesLast`: names that keep their nodes or are spent.
* `Settled`: both; `Settled.step`: what a change has to say to keep them.
* `ApartFrom`: nodes that a binding has nothing to do with.
* `Homed.replace`, `Homed.cleared`, `Settled.repainted`, `Settled.setText`: the changes that bindings make.
-/

namespace ReactiveTemplate

variable {t₀ t t' : HostTree Reaction} {P : NodeId → Prop} {bs front back : List Binding}
  {b c d : Binding} {x y p o o' anchor copy node template placeholder : NodeId}
  {rendered : List NodeId} {clause : ForClause} {n m : Nat}

/-! ## Homes -/

/-- The names that bindings know: of the nodes of the first document, and of what they have made. -/
def Named (t₀ : HostTree Reaction) (bs : List Binding) (x : NodeId) : Prop :=
  t₀.Live x ∨ ∃ b ∈ bs, x ∈ b.own

/-- A node that has a parent has its first one, or that of the element for which it was made. -/
structure Homed (t₀ : HostTree Reaction) (bs : List Binding) (t : HostTree Reaction) : Prop where
  sound : t.Sound
  nodes : ∀ b ∈ bs, t₀.Live b.node
  new : ∀ b ∈ bs, ∀ o ∈ b.own, ¬ t₀.Live o
  distinct : (bs.flatMap Binding.own).Nodup
  above : ∀ x p, t₀.Live x → t.parent? x = some p → t₀.parent? x = some p
  ownAbove : ∀ b ∈ bs, ∀ o ∈ b.own, ∀ p, t.parent? o = some p → t₀.parent? b.node = some p

namespace Homed

/-- Above a node of the first document there are such nodes only, in their old order. -/
theorem old_of_below (h : Homed t₀ bs t) (ht : t₀.Tree) (hx : t₀.Live x) (hbelow : t.Below y x) :
    t₀.Live y ∧ t₀.Below y x := by
  induction hbelow with
  | refl => exact ⟨hx, HostTree.Below.refl t₀ y⟩
  | @tail z x _ hzx ih =>
    have hparent := h.above x z hx (h.sound.tree.linked.child hzx)
    obtain ⟨hy, hbelow⟩ := ih (ht.live_parent hparent)
    exact ⟨hy, hbelow.tail (ht.listed hparent)⟩

theorem not_below_own (h : Homed t₀ bs t) (ht : t₀.Tree) (hb : b ∈ bs) (ho : o ∈ b.own)
    (hx : t₀.Live x) : ¬ t.Below o x := fun hbelow =>
  h.new b hb o ho (h.old_of_below ht hx hbelow).1

/-- What bindings have made lies apart. -/
theorem own_apart (h : Homed t₀ bs t) (ht : t₀.Tree) (hb : b ∈ bs) (ho : o ∈ b.own) (hc : c ∈ bs)
    (ho' : o' ∈ c.own) (hne : o' ≠ o) : ¬ t.Below o o' := by
  intro hbelow
  obtain ⟨p, hp, hbelow⟩ := h.sound.tree.linked.below_parent hbelow hne
  exact h.not_below_own ht hb ho (ht.live_parent (h.ownAbove c hc o' ho' p hp)) hbelow

/-- A node with a parent that it had before, or with that of a binding whose node it is. -/
theorem step (h : Homed t₀ bs t) (hs : t'.Sound)
    (hback : ∀ x, Named t₀ bs x → t'.Live x → t.Live x)
    (hmoved : ∀ x p, t.Live x → t'.parent? x = some p → t.parent? x = some p ∨
      ∃ b ∈ bs, (x = b.node ∨ x ∈ b.own) ∧ t₀.parent? b.node = some p) : Homed t₀ bs t' where
  sound := hs
  nodes := h.nodes
  new := h.new
  distinct := h.distinct
  above x p hx hp := by
    have hlive := hback x (.inl hx) (HostTree.live_of_parent? hp)
    obtain hsame | ⟨b, hb, rfl | ho, hparent⟩ := hmoved x p hlive hp
    · exact h.above x p hx hsame
    · exact hparent
    · exact absurd hx (h.new b hb x ho)
  ownAbove b hb o ho p hp := by
    have hlive := hback o (.inr ⟨b, hb, ho⟩) (HostTree.live_of_parent? hp)
    obtain hsame | ⟨c, hc, rfl | hoc, hparent⟩ := hmoved o p hlive hp
    · exact h.ownAbove b hb o ho p hsame
    · exact absurd (h.nodes c hc) (h.new b hb _ ho)
    · obtain rfl : b = c := own_unique h.distinct hb hc ho hoc
      exact hparent

/-- A binding with other nodes of its own, of which the new ones are at home. -/
theorem exchange (h : Homed t₀ (front ++ b :: back) t) (hnode : d.node = b.node)
    (hnodup : d.own.Nodup) (hown : ∀ o ∈ d.own, o ∈ b.own ∨ ¬ Named t₀ (front ++ b :: back) o ∧
      ∀ p, t.parent? o = some p → t₀.parent? b.node = some p) :
    Homed t₀ (front ++ d :: back) t := by
  have hb : b ∈ front ++ b :: back := mem_insert.2 (.inl rfl)
  obtain ⟨hothers, -, hapart⟩ := nodup_own_insert.1 h.distinct
  have hold : ∀ {c}, c ∈ front ++ back → c ∈ front ++ b :: back := fun hc => mem_insert.2 (.inr hc)
  constructor
  case sound => exact h.sound
  case nodes =>
    intro c hc
    rcases mem_insert.1 hc with rfl | hc
    · exact hnode ▸ h.nodes b hb
    · exact h.nodes c (hold hc)
  case new =>
    intro c hc o ho
    rcases mem_insert.1 hc with rfl | hc
    · rcases hown o ho with hob | ⟨hnew, -⟩
      · exact h.new b hb o hob
      · exact fun hlive => hnew (.inl hlive)
    · exact h.new c (hold hc) o ho
  case distinct =>
    refine nodup_own_insert.2 ⟨hothers, hnodup, fun c hc o ho hod => ?_⟩
    rcases hown o hod with hob | ⟨hnew, -⟩
    · exact hapart c hc o ho hob
    · exact hnew (.inr ⟨c, hold hc, ho⟩)
  case above => exact h.above
  case ownAbove =>
    intro c hc o ho p hp
    rcases mem_insert.1 hc with rfl | hc
    · rw [hnode]
      rcases hown o ho with hob | ⟨-, hhome⟩
      · exact h.ownAbove b hb o hob p hp
      · exact hhome p hp
    · exact h.ownAbove c (hold hc) o ho p hp

/-- Fewer bindings know less. -/
theorem tail (h : Homed t₀ (b :: bs) t) : Homed t₀ bs t where
  sound := h.sound
  nodes c hc := h.nodes c (List.mem_cons_of_mem _ hc)
  new c hc := h.new c (List.mem_cons_of_mem _ hc)
  distinct := (List.nodup_append.1 h.distinct).2.1
  above := h.above
  ownAbove c hc := h.ownAbove c (List.mem_cons_of_mem _ hc)

end Homed

/-! ## Names that last -/

/-- The nodes that bindings know are there, or their names were given up at most `n` generations
    ago. -/
def NamesLast (t₀ : HostTree Reaction) (bs : List Binding) (n : Nat) (t : HostTree Reaction) : Prop :=
  ∀ x, Named t₀ bs x → t.Live x ∨ t.Spent n x

namespace NamesLast

theorem mono (h : NamesLast t₀ bs n t) (hle : n ≤ m) : NamesLast t₀ bs m t := fun x hx =>
  (h x hx).imp_right fun hspent => hspent.mono hle

theorem age (h : NamesLast t₀ bs n t) (haged : t.AgedBy m t') : NamesLast t₀ bs (n + m) t' := by
  intro x hx
  rcases h x hx with hlive | hspent
  · exact (haged.live_or_spent hlive).imp_right fun hspent => hspent.mono (Nat.le_add_left _ _)
  · exact .inr (hspent.age haged)

/-- The name of a node that is gone is not given to another one. -/
theorem live_before (h : NamesLast t₀ bs n t) (haged : t.AgedBy m t') (hfew : n + m < UInt32.size)
    (hx : Named t₀ bs x) (hlive : t'.Live x) : t.Live x :=
  (h x hx).elim id fun hspent => absurd hlive ((hspent.age haged).not_live hfew)

end NamesLast

/-- The invariant of bindings whose elements may go with a text. -/
structure Settled (t₀ : HostTree Reaction) (bs : List Binding) (n : Nat) (t : HostTree Reaction) :
    Prop where
  homed : Homed t₀ bs t
  names : NamesLast t₀ bs n t

namespace Settled

theorem mono (h : Settled t₀ bs n t) (hle : n ≤ m) : Settled t₀ bs m t :=
  ⟨h.homed, h.names.mono hle⟩

theorem step (h : Settled t₀ bs n t) (hs : t'.Sound) (haged : t.AgedBy m t')
    (hfew : n + m < UInt32.size)
    (hmoved : ∀ x p, t.Live x → t'.parent? x = some p → t.parent? x = some p ∨
      ∃ b ∈ bs, (x = b.node ∨ x ∈ b.own) ∧ t₀.parent? b.node = some p) :
    Settled t₀ bs (n + m) t' :=
  ⟨h.homed.step hs (fun _ hx => h.names.live_before haged hfew hx) hmoved, h.names.age haged⟩

/-- A binding with other nodes of its own, of which the new ones are there and at home. -/
theorem exchange (h : Settled t₀ (front ++ b :: back) n t) (hnode : d.node = b.node)
    (hnodup : d.own.Nodup)
    (hown : ∀ o ∈ d.own, o ∈ b.own ∨ t.Live o ∧ ¬ Named t₀ (front ++ b :: back) o ∧
      ∀ p, t.parent? o = some p → t₀.parent? b.node = some p) :
    Settled t₀ (front ++ d :: back) n t := by
  refine ⟨h.homed.exchange hnode hnodup fun o ho => (hown o ho).imp_right And.right, ?_⟩
  rintro x (hx | ⟨c, hc, hxc⟩)
  · exact h.names x (.inl hx)
  · rcases mem_insert.1 hc with rfl | hc
    · rcases hown x hxc with hxb | ⟨hlive, -⟩
      · exact h.names x (.inr ⟨b, mem_insert.2 (.inl rfl), hxb⟩)
      · exact .inl hlive
    · exact h.names x (.inr ⟨c, mem_insert.2 (.inr hc), hxc⟩)

/-- A binding with the same nodes of its own. -/
theorem relabel (h : Settled t₀ (front ++ b :: back) n t) (hnode : d.node = b.node)
    (hown : d.own = b.own) : Settled t₀ (front ++ d :: back) n t :=
  h.exchange hnode (hown ▸ (nodup_own_insert.1 h.homed.distinct).2.1) fun _ ho => .inl (hown ▸ ho)

end Settled

/-! ## Changes of place -/

/-- Nodes that a binding has nothing to do with: neither its element and what it has made, nor their
    home is among them. -/
structure ApartFrom (t₀ : HostTree Reaction) (P : NodeId → Prop) (b : Binding) : Prop where
  node : ¬ P b.node
  own : ∀ o ∈ b.own, ¬ P o
  home : ∀ p, t₀.parent? b.node = some p → ¬ P p

theorem ApartFrom.not_mem (h : ApartFrom t₀ P b) (hx : x = b.node ∨ x ∈ b.own) : ¬ P x := by
  rcases hx with rfl | hx
  · exact h.node
  · exact h.own x hx

/-- No nodes are apart from every binding. -/
theorem apartFrom_none : ApartFrom t₀ (fun _ => False) b := ⟨id, fun _ _ => id, fun _ _ => id⟩

theorem guarded_none : t.Guarded fun _ => False := ⟨fun _ => False.elim, fun _ _ => False.elim⟩

namespace Homed

theorem home_eq (h : Homed t₀ bs t) (hb : b ∈ bs) (hx : x = b.node ∨ x ∈ b.own)
    (hp : t.parent? x = some p) : t₀.parent? b.node = some p := by
  rcases hx with rfl | hx
  · exact h.above _ p (h.nodes b hb) hp
  · exact h.ownAbove b hb x hx p hp

/-- No node that a binding moves is above the home of the binding. -/
theorem not_below_home (h : Homed t₀ bs t) (ht : t₀.Tree) (hb : b ∈ bs)
    (hx : x = b.node ∨ x ∈ b.own) (hp : t₀.parent? b.node = some p) :
    x ≠ HostTree.root ∧ ¬ t.Below x p := by
  have hlisted := ht.listed hp
  rcases hx with rfl | hx
  · exact ⟨ht.linked.ne_root hlisted, fun hbelow => ht.acyclic.not_below hlisted
      (h.old_of_below ht (ht.live_parent hp) hbelow).2⟩
  · refine ⟨?_, h.not_below_own ht hb hx (ht.live_parent hp)⟩
    rintro rfl
    exact h.new b hb _ hx ht.linked.rooted

/-- One node of a binding goes into the place of another. -/
theorem replace (h : Homed t₀ bs t) (ht : t₀.Tree) (hb : b ∈ bs) (ho : o = b.node ∨ o ∈ b.own)
    (ho' : o' = b.node ∨ o' ∈ b.own) (hne : o ≠ o') (hguard : t.Guarded P)
    (hapart : ApartFrom t₀ P b) :
    Homed t₀ bs (t.replace o o').2 ∧ HostTree.Beside P t (t.replace o o').2 := by
  obtain ⟨e, hreplace⟩ | ⟨p, t', hp, hreplace, hexchanged⟩ :=
    HostTree.replace_cases h.sound hne fun p hp => h.not_below_home ht hb ho' (h.home_eq hb ho hp)
  · rw [hreplace]
    exact ⟨h, h.sound, fun _ _ => rfl⟩
  · rw [hreplace]
    have hhome := h.home_eq hb ho hp
    refine ⟨h.step hexchanged.sound (fun x _ hx => hx.of_content (hexchanged.content x).symm) ?_,
      hexchanged.beside hguard hp (hapart.home p hhome) (hapart.not_mem ho')
        fun q hq => hapart.home q (h.home_eq hb ho' hq)⟩
    intro x q _ hq
    rw [hexchanged.parent] at hq
    split at hq
    · cases hq
    · split at hq
      · next heq => exact .inr ⟨b, hb, heq ▸ ho', Option.some.inj hq ▸ hhome⟩
      · exact .inl hq

/-- Nodes are destroyed. -/
theorem cleared (h : Homed t₀ bs t) {ids : List NodeId} (hcleared : t.Cleared t' ids) :
    Homed t₀ bs t' := by
  refine h.step hcleared.sound (fun x _ hx => (hcleared.left x hx).1) fun x p _ hp => ?_
  rw [(hcleared.parent?_eq (HostTree.live_of_parent? hp)).2] at hp
  exact .inl hp

end Homed

namespace Settled

theorem replace (h : Settled t₀ bs n t) (ht : t₀.Tree) (hb : b ∈ bs) (ho : o = b.node ∨ o ∈ b.own)
    (ho' : o' = b.node ∨ o' ∈ b.own) (hne : o ≠ o') (hguard : t.Guarded P)
    (hapart : ApartFrom t₀ P b) :
    Settled t₀ bs n (t.replace o o').2 ∧ HostTree.Beside P t (t.replace o o').2 := by
  obtain ⟨hhomed, hbeside⟩ := h.homed.replace ht hb ho ho' hne hguard hapart
  exact ⟨⟨hhomed, h.names.age (HostTree.touched_replace t o o').filled.agedBy_zero⟩, hbeside⟩

/-- A node looks different. -/
theorem repainted (h : Settled t₀ bs n t) (hfew : n < UInt32.size) (hrepainted : t.Repainted t' node) :
    Settled t₀ bs n t' := by
  have hkeeps := hrepainted.keepsPlaces h.homed.sound
  have haged : t.AgedBy 0 t' := by
    obtain ⟨change, rfl, -⟩ := hrepainted.change
    exact (HostTree.touched_modify t node change).filled.agedBy_zero
  refine h.step hkeeps.sound haged hfew fun x p hx hp => .inl ?_
  rwa [hkeeps.parent x hx] at hp

/-- A node gets another text. -/
theorem setText (h : Settled t₀ bs n t) {text : String} (hfew : n + 1 < UInt32.size)
    (hset : t.setText node text = .ok t') : Settled t₀ bs (n + 1) t' := by
  refine h.step (h.homed.sound.setText hset) (HostTree.aged_setText hset).agedBy_one hfew
    fun x p hx hp => .inl ?_
  rcases HostTree.parent?_setText h.homed.sound hset hx (HostTree.live_of_parent? hp) with
    hnone | hsame
  · rw [hnone] at hp
    cases hp
  · rwa [hsame] at hp

end Settled

end ReactiveTemplate
