import Mathlib.Data.List.Flatten
import ReactiveTemplate.Proofs.Engine.Restoring

/-!
# Slots with changing copies

An update of a binding puts further copies into a slot, takes copies away, or shows a new text.
All of it can be undone.

* `HostTree.KeepsHeard`: the listeners of safe nodes stay.
* `Restorable.revise`: a binding with other nodes of its own.
* `Restorable.removed`, `Restorable.placed`: one copy less in a slot, and one more.
* `Restorable.setText`: a new text in an element that shows one.
* `sheltered`, `Restorable.weaken`: fewer nodes are safe where more elements show a text.
-/

namespace ReactiveTemplate

variable {t₀ t t' t'' : HostTree Reaction} {shows : NodeId → Prop} {bs front back : List Binding}
  {b c d : Binding} {x y p q o old anchor copy node template placeholder : NodeId}
  {os os' new rest rendered : List NodeId} {clause : ForClause}

/-! ## Listeners -/

/-- The listeners of safe nodes stay. -/
def HostTree.KeepsHeard (t₀ : HostTree Reaction) (shows : NodeId → Prop) (t t' : HostTree Reaction) :
    Prop :=
  ∀ x, t₀.Safe shows x → t'.listenersOf x = t.listenersOf x

namespace HostTree.KeepsHeard

theorem refl : t₀.KeepsHeard shows t t := fun _ _ => rfl

theorem trans (h : t₀.KeepsHeard shows t t') (h' : t₀.KeepsHeard shows t' t'') :
    t₀.KeepsHeard shows t t'' := fun x hx => (h' x hx).trans (h x hx)

theorem of_content (h : ∀ x, t'.content x = t.content x) : t₀.KeepsHeard shows t t' :=
  fun x _ => listenersOf_eq_of_content_eq (h x)

end HostTree.KeepsHeard

/-! ## Other nodes of a binding -/

namespace Restorable

/-- A node that was taken out was taken out by one binding only. -/
theorem standIn?_others (h : Restorable t₀ shows (front ++ b :: back) t) (hb : b.standIn? ≠ none) :
    ∀ c ∈ front ++ back, c.node = b.node → c.standIn? = none := fun c hc hnode =>
  ((takenOnce_insert.1 h.once).2 c hc hnode).resolve_right hb

/-- A binding makes other nodes its own. Safe nodes and what the other bindings have made keep
    their places. -/
theorem revise (h : Restorable t₀ shows (front ++ b :: back) t) (hnode : d.node = b.node)
    (hsound : t'.Sound)
    (hsafe : ∀ x, t₀.Safe shows x → t'.content x = t.content x ∧ t'.parent? x = t.parent? x)
    (hothers : ∀ c ∈ front ++ back, ∀ o ∈ c.own,
      t'.content o = t.content o ∧ t'.parent? o = t.parent? o)
    (hmade : ∀ o ∈ d.own, Made t₀ shows t' o ∧
      (t'.parent? o = none ∨ t'.parent? o = t₀.parent? b.node))
    (hnodup : d.own.Nodup) (hapart : ∀ c ∈ front ++ back, ∀ o ∈ c.own, o ∉ d.own)
    (haside : ∀ o ∈ d.aside, t'.parent? o = none)
    (hout : d.standIn? ≠ none → b.standIn? ≠ none)
    (hslots : ∀ q, t₀.Outside shows q → ¬ shows q →
      t'.children q = (t₀.children q).flatMap (standIns (front ++ d :: back))) :
    Restorable t₀ shows (front ++ d :: back) t' where
  sound := hsound
  stays x hx := (h.stays x hx).of_content (hsafe x hx).1
  kind x hx := by
    rw [HostTree.figure_eq_of_content_eq (hsafe x hx).1]
    exact h.kind x hx
  above x hx := by
    rw [(hsafe x hx).2]
    exact h.above x hx
  safe c hc := by
    rcases mem_insert.1 hc with rfl | hc
    · exact hnode ▸ h.safe b (mem_insert.2 (.inl rfl))
    · exact h.safe c (mem_insert.2 (.inr hc))
  made c hc o ho := by
    rcases mem_insert.1 hc with rfl | hc
    · exact (hmade o ho).1
    · exact (h.made c (mem_insert.2 (.inr hc)) o ho).of_content (hothers c hc o ho).1
  ownAbove c hc o ho := by
    rcases mem_insert.1 hc with rfl | hc
    · exact hnode ▸ (hmade o ho).2
    · rw [(hothers c hc o ho).2]
      exact h.ownAbove c (mem_insert.2 (.inr hc)) o ho
  distinct := nodup_own_insert.2 ⟨(nodup_own_insert.1 h.distinct).1, hnodup, hapart⟩
  aside c hc o ho := by
    rcases mem_insert.1 hc with rfl | hc
    · exact haside o ho
    · have hc' : c ∈ front ++ b :: back := mem_insert.2 (.inr hc)
      rw [← h.aside c hc' o ho]
      rcases (Binding.mem_of_mem_aside ho).2 with rfl | hoc
      · exact (hsafe _ (h.safe c hc')).2
      · exact (hothers c hc o hoc).2
  out c hc houtc := by
    rcases mem_insert.1 hc with rfl | hc
    · obtain ⟨hnone, hslot⟩ := h.out b (mem_insert.2 (.inl rfl)) (hout houtc)
      rw [hnode, (hsafe _ (h.safe b (mem_insert.2 (.inl rfl)))).2]
      exact ⟨hnone, hslot⟩
    · have hc' : c ∈ front ++ b :: back := mem_insert.2 (.inr hc)
      rw [(hsafe _ (h.safe c hc')).2]
      exact h.out c hc' houtc
  once := by
    refine takenOnce_insert.2 ⟨(takenOnce_insert.1 h.once).1, fun c hc hcnode => ?_⟩
    by_cases hd : d.standIn? = none
    · exact .inr hd
    · exact .inl (h.standIn?_others (hout hd) c hc (hcnode.trans hnode))
  slots := hslots

/-- Other nodes in the place of one that stands in for the node of a binding. -/
theorem slots_swap (h : Restorable t₀ shows (front ++ b :: back) t) (ht : t₀.Tree)
    (hnode : d.node = b.node) (hos : b.standIn? = some os) (hos' : d.standIn? = some os')
    (hold : old ∈ os) (hswap : os.flatMap (HostTree.swap old new) = os') (hq : t₀.Outside shows q)
    (hshows : ¬ shows q) : (t.children q).flatMap (HostTree.swap old new) =
      (t₀.children q).flatMap (standIns (front ++ d :: back)) := by
  have hb : b ∈ front ++ b :: back := mem_insert.2 (.inl rfl)
  have hothers := h.standIn?_others (by rw [hos]; exact nofun)
  rw [h.slots q hq hshows, List.flatMap_assoc]
  refine List.flatMap_congr fun x hx => ?_
  by_cases heq : x = b.node
  · have hself : standIns (front ++ d :: back) b.node = os' := by
      rw [← hnode]
      exact standIns_self hos' (hnode ▸ hothers)
    rw [heq, standIns_self hos hothers, hself, hswap]
  · have hbeside : standIns (front ++ d :: back) x = standIns (front ++ b :: back) x :=
      (standIns_beside (.inl fun hd => heq (hd.symm.trans hnode))).trans
        (standIns_beside (.inl (Ne.symm heq))).symm
    rw [hbeside]
    exact HostTree.flatMap_swap_of_not_mem (h.not_mem_standIns hb
      (Binding.mem_own_of_standIn? hos hold) ((hq.child ht hshows hx).safe ht) heq)

/-! ## One copy less -/

/-- Nothing that bindings keep lies below a copy. -/
theorem not_below_own (h : Restorable t₀ shows bs t) (ht : t₀.Tree) (hb : b ∈ bs) (ho : o ∈ b.own) :
    (∀ x, t₀.Safe shows x → ¬ t.Below o x) ∧
      ∀ c ∈ bs, ∀ y ∈ c.own, y ≠ o → ¬ t.Below o y := by
  refine ⟨fun x hx hbelow => ?_, fun c hc y hy hne hbelow => ?_⟩
  · exact (h.made b hb o ho).new (h.safe_of_below ht hx hbelow).1
  · exact (h.made b hb o ho).new (h.safe_of_below_own ht hc hy hbelow hne.symm).1

/-- A copy of a list is destroyed. -/
theorem removed (h : Restorable t₀ shows (front ++ b :: back) t) (ht : t₀.Tree)
    (hdirective : b.directive = .repetition clause template placeholder (copy :: rest))
    (hnode : d.node = b.node) (hd : d.directive = .repetition clause template placeholder rest) :
    ∃ t', t.destroy copy = .ok t' ∧ Restorable t₀ shows (front ++ d :: back) t' ∧
      t₀.KeepsHeard shows t t' ∧ t.Removed t' copy := by
  have hb : b ∈ front ++ b :: back := mem_insert.2 (.inl rfl)
  have hown : b.own = template :: placeholder :: copy :: rest := by rw [Binding.own, hdirective]
  have hownd : d.own = template :: placeholder :: rest := by rw [Binding.own, hd]
  have hcopy : copy ∈ b.own := by
    rw [hown]
    simp
  obtain ⟨hothers, hnodup, hapart⟩ := nodup_own_insert.1 h.distinct
  rw [hown] at hnodup
  have hsub : d.own.Sublist b.own := by
    rw [hown, hownd]
    exact ((List.Sublist.refl rest).cons copy).cons_cons placeholder |>.cons_cons template
  have hne : ∀ o ∈ d.own, o ≠ copy := by
    rintro o ho rfl
    rw [hownd] at ho
    simp only [List.nodup_cons, List.mem_cons, not_or] at hnodup ho
    obtain ⟨⟨-, h₁, -⟩, ⟨h₂, -⟩, h₃, -⟩ := hnodup
    rcases ho with rfl | rfl | ho
    · exact h₁ rfl
    · exact h₂ rfl
    · exact h₃ ho
  have hroot : copy ≠ HostTree.root := h.not_safe_own hb hcopy ht.root_safe
  obtain ⟨t', hdestroy, hremoved⟩ :=
    HostTree.destroy_removed h.sound (h.made b hb copy hcopy).live hroot
  obtain ⟨hsafe, hbeside⟩ := h.not_below_own ht hb hcopy
  refine ⟨t', hdestroy, ?_, fun x hx =>
    HostTree.listenersOf_eq_of_content_eq (hremoved.content x (hsafe x hx)), hremoved⟩
  refine h.revise hnode hremoved.sound
    (fun x hx => ⟨hremoved.content x (hsafe x hx), hremoved.parent x (hsafe x hx)⟩) ?_ ?_
    (hsub.nodup (hown ▸ hnodup)) (fun c hc o ho hmem => hapart c hc o ho (hsub.subset hmem)) ?_ ?_ ?_
  · intro c hc o ho
    have hc' : c ∈ front ++ b :: back := mem_insert.2 (.inr hc)
    have hneo : o ≠ copy := by
      rintro rfl
      exact hapart c hc o ho hcopy
    have hout := hbeside c hc' o ho hneo
    exact ⟨hremoved.content o hout, hremoved.parent o hout⟩
  · intro o ho
    have hob := hsub.subset ho
    have hout := hbeside b hb o hob (hne o ho)
    rw [hremoved.parent o hout]
    exact ⟨(h.made b hb o hob).of_content (hremoved.content o hout), h.ownAbove b hb o hob⟩
  · intro o ho
    have hoa : o ∈ b.aside := by
      rw [Binding.aside, hdirective]
      rwa [Binding.aside, hd] at ho
    have hod : o ∈ d.own := by
      rw [Binding.aside, hd] at ho
      rw [hownd]
      exact List.mem_cons.2 (.inl (List.mem_singleton.1 ho))
    rw [hremoved.parent o (hbeside b hb o (hsub.subset hod) (hne o hod))]
    exact h.aside b hb o hoa
  · intro _
    rw [Binding.standIn?, hdirective]
    exact Option.some_ne_none _
  · intro q hq hshows
    have hslots : ([placeholder] ++ copy :: rest).Nodup := (List.nodup_cons.1 hnodup).2
    rw [hremoved.children q (hsafe q (hq.safe ht)), HostTree.filter_eq_flatMap_swap]
    refine h.slots_swap ht hnode (by rw [Binding.standIn?, hdirective])
      (by rw [Binding.standIn?, hd]) (by simp) ?_ hq hshows
    exact HostTree.flatMap_swap hslots

/-! ## One copy more -/

/-- A further copy is put behind the last one. -/
theorem placed (h : Restorable t₀ shows (front ++ b :: back) t) (ht : t₀.Tree)
    (hdirective : b.directive = .repetition clause template placeholder rendered)
    (hnode : d.node = b.node)
    (hd : d.directive = .repetition clause template placeholder (rendered ++ [copy]))
    (hanchor : (placeholder :: rendered).getLast? = some anchor) (hp : t.parent? anchor = some p)
    (hcopy : Made t₀ shows t copy) (hfree : t.parent? copy = none)
    (hfresh : ∀ c ∈ front ++ b :: back, copy ∉ c.own) :
    ∃ t', t.insertAfter anchor copy = (.ok (), t') ∧ Restorable t₀ shows (front ++ d :: back) t' ∧
      t.Swapped t' anchor [anchor, copy] := by
  have hb : b ∈ front ++ b :: back := mem_insert.2 (.inl rfl)
  have hown : b.own = template :: placeholder :: rendered := by rw [Binding.own, hdirective]
  have hownd : d.own = b.own ++ [copy] := by
    rw [Binding.own, hd, hown]
    rfl
  obtain ⟨hothers, hnodup, hapart⟩ := nodup_own_insert.1 h.distinct
  obtain ⟨before, hbefore⟩ := List.getLast?_eq_some_iff.1 hanchor
  have hanchored : anchor ∈ placeholder :: rendered := List.mem_of_getLast? hanchor
  have hanchor' : anchor ∈ b.own := hown ▸ List.mem_cons_of_mem _ hanchored
  have hparent := h.parent_of_own hb hanchor' hp
  have hroot : copy ≠ HostTree.root := by
    rintro rfl
    exact hcopy.new ht.root_safe
  have hsafe : t₀.Safe shows p := (h.safe b hb).parent ht hparent
  obtain ⟨t', hinsert, hswap, habove⟩ := HostTree.insertAfter_swaps h.sound hp hcopy.live hfree hroot
    fun hbelow => hcopy.new (h.safe_of_below ht hsafe hbelow).1
  have hne : ∀ x, t₀.Safe shows x → x ≠ copy := by
    rintro x hx rfl
    exact hcopy.new hx
  have hne' : ∀ c ∈ front ++ b :: back, ∀ o ∈ c.own, o ≠ copy := by
    rintro c hc o ho rfl
    exact hfresh c hc ho
  refine ⟨t', hinsert, ?_, hswap⟩
  refine h.revise hnode hswap.sound (fun x hx => ⟨hswap.content x, ?_⟩)
    (fun c hc o ho => ⟨hswap.content o, ?_⟩) (fun o ho => ?_) ?_ (fun c hc o ho hmem => ?_)
    (fun o ho => ?_) ?_ ?_
  · rw [habove, if_neg (hne x hx)]
  · rw [habove, if_neg (hne' c (mem_insert.2 (.inr hc)) o ho)]
  · rw [hownd] at ho
    rcases List.mem_append.1 ho with ho | ho
    · rw [habove, if_neg (hne' b hb o ho)]
      exact ⟨(h.made b hb o ho).of_content (hswap.content o), h.ownAbove b hb o ho⟩
    · rw [List.mem_singleton.1 ho, habove, if_pos rfl, hparent]
      exact ⟨hcopy.of_content (hswap.content copy), .inr rfl⟩
  · rw [hownd, List.nodup_append]
    refine ⟨hnodup, List.nodup_singleton _, fun o ho o' ho' => ?_⟩
    rw [List.mem_singleton.1 ho']
    exact hne' b hb o ho
  · rw [hownd] at hmem
    rcases List.mem_append.1 hmem with hmem | hmem
    · exact hapart c hc o ho hmem
    · exact hne' c (mem_insert.2 (.inr hc)) o ho (List.mem_singleton.1 hmem)
  · have hoa : o ∈ b.aside := by
      rw [Binding.aside, hdirective]
      rwa [Binding.aside, hd] at ho
    have hob : o ∈ b.own := by
      rw [Binding.aside, hd] at ho
      rw [hown]
      exact List.mem_cons.2 (.inl (List.mem_singleton.1 ho))
    rw [habove, if_neg (hne' b hb o hob)]
    exact h.aside b hb o hoa
  · intro _
    rw [Binding.standIn?, hdirective]
    exact Option.some_ne_none _
  · intro q hq hshows
    rw [hown] at hnodup
    have hslots : (before ++ anchor :: []).Nodup := hbefore ▸ (List.nodup_cons.1 hnodup).2
    rw [hswap.children q]
    refine h.slots_swap ht hnode (by rw [Binding.standIn?, hdirective])
      (by rw [Binding.standIn?, hd]) hanchored ?_ hq hshows
    rw [hbefore, HostTree.flatMap_swap hslots, ← List.cons_append, hbefore]
    simp

/-! ## New texts -/

/-- No text of an element that shows one is above a safe node. -/
theorem clearOf (h : Restorable t₀ shows bs t) (ht : t₀.Tree) (hshows : shows node)
    (hx : t₀.Safe shows x) : t.ClearOf (t.children node) x := by
  intro c hc n hn hkind hbelow
  obtain ⟨hsafe, hbelow₀⟩ := h.safe_of_below ht hx hbelow
  have hparent := h.parent_of_safe hsafe (h.sound.tree.linked.child hc)
  have hlisted := ht.listed hparent
  have hkind₀ : (t₀.figure c).kind = .text := by
    rw [← h.kind c hsafe, HostTree.figure_of_node? hn]
    exact hkind
  refine hx.clear c hbelow₀ hkind₀ ⟨node, hshows, ?_, (HostTree.Below.refl t₀ node).tail hlisted⟩
  rintro rfl
  exact ht.acyclic.not_below hlisted (HostTree.Below.refl t₀ node)

/-- None is above a node that a binding has made either. -/
theorem clearOf_own (h : Restorable t₀ shows bs t) (ht : t₀.Tree) (hshows : shows node) (hb : b ∈ bs)
    (ho : o ∈ b.own) : t.ClearOf (t.children node) o := by
  intro c hc n hn hkind hbelow
  by_cases hne : c = o
  · refine (h.made b hb o ho).kind ?_
    rw [← hne, HostTree.figure_of_node? hn]
    exact hkind
  · obtain ⟨p, hp, hcp⟩ := h.sound.tree.linked.below_parent hbelow (Ne.symm hne)
    have hsafe := (h.safe b hb).parent ht (h.parent_of_own hb ho hp)
    exact h.clearOf ht hshows hsafe c hc n hn hkind hcp

/-- An element that shows a text gets a new one. -/
theorem setText (h : Restorable t₀ shows bs t) (ht : t₀.Tree) (hshows : shows node) {text : String}
    (hset : t.setText node text = .ok t') :
    Restorable t₀ shows bs t' ∧ t₀.KeepsHeard shows t t' := by
  have hsafe : ∀ x, t₀.Safe shows x →
      HostTree.Keeps t t' x ∧ (x ≠ node → t'.children x = t.children x) := fun x hx =>
    HostTree.setText_keeps h.sound hset (h.stays x hx) (h.clearOf ht hshows hx)
  have hown : ∀ b ∈ bs, ∀ o ∈ b.own, HostTree.Keeps t t' o := fun b hb o ho =>
    (HostTree.setText_keeps h.sound hset (h.made b hb o ho).live
      (h.clearOf_own ht hshows hb ho)).1
  refine ⟨?_, fun x hx => (hsafe x hx).1.listeners⟩
  constructor
  case sound => exact h.sound.setText hset
  case stays => exact fun x hx => (hsafe x hx).1.live
  case kind => exact fun x hx => (hsafe x hx).1.kind.trans (h.kind x hx)
  case above =>
    intro x hx
    rcases (hsafe x hx).1.parent with hnone | hsame
    · exact .inl hnone
    · exact hsame ▸ h.above x hx
  case safe => exact h.safe
  case made =>
    intro b hb o ho
    obtain ⟨-, hnew, hkind⟩ := h.made b hb o ho
    exact ⟨(hown b hb o ho).live, hnew, by rwa [(hown b hb o ho).kind]⟩
  case ownAbove =>
    intro b hb o ho
    rcases (hown b hb o ho).parent with hnone | hsame
    · exact .inl hnone
    · exact hsame ▸ h.ownAbove b hb o ho
  case distinct => exact h.distinct
  case aside =>
    intro b hb o ho
    have hkeeps : HostTree.Keeps t t' o := by
      rcases (Binding.mem_of_mem_aside ho).2 with rfl | hoc
      · exact (hsafe _ (h.safe b hb)).1
      · exact hown b hb o hoc
    rcases hkeeps.parent with hnone | hsame
    · exact hnone
    · exact hsame.trans (h.aside b hb o ho)
  case out =>
    intro b hb hout
    obtain ⟨hnone, hslot⟩ := h.out b hb hout
    refine ⟨?_, hslot⟩
    rcases (hsafe _ (h.safe b hb)).1.parent with hnone' | hsame
    · exact hnone'
    · exact hsame.trans hnone
  case once => exact h.once
  case slots =>
    intro q hq hnot
    rw [(hsafe q (hq.safe ht)).2 fun heq => hnot (heq ▸ hshows)]
    exact h.slots q hq hnot

end Restorable

/-! ## Fewer safe nodes -/

open Classical in
/-- The bindings of safe nodes. -/
noncomputable def sheltered (t₀ : HostTree Reaction) (shows : NodeId → Prop) (bs : List Binding) :
    List Binding :=
  bs.filter fun b => t₀.Safe shows b.node

theorem mem_sheltered : b ∈ sheltered t₀ shows bs ↔ b ∈ bs ∧ t₀.Safe shows b.node := by
  simp [sheltered]

theorem sheltered_sublist (bs : List Binding) : (sheltered t₀ shows bs).Sublist bs :=
  List.filter_sublist

theorem sheltered_eq_self (h : ∀ b ∈ bs, t₀.Safe shows b.node) : sheltered t₀ shows bs = bs :=
  List.filter_eq_self.2 (by simpa using h)

theorem sheltered_append (front back : List Binding) : sheltered t₀ shows (front ++ back) =
    sheltered t₀ shows front ++ sheltered t₀ shows back :=
  List.filter_append _ _

theorem sheltered_cons (hb : t₀.Safe shows b.node) (bs : List Binding) :
    sheltered t₀ shows (b :: bs) = b :: sheltered t₀ shows bs :=
  List.filter_cons_of_pos (by simpa using hb)

theorem sheltered_cons_of_not (hb : ¬ t₀.Safe shows b.node) (bs : List Binding) :
    sheltered t₀ shows (b :: bs) = sheltered t₀ shows bs :=
  List.filter_cons_of_neg (by simpa using hb)

/-- Bindings of other nodes do not stand in for a safe one. -/
theorem standIns_sheltered (hx : t₀.Safe shows x) : standIns (sheltered t₀ shows bs) x = standIns bs x := by
  rw [standIns, standIns]
  congr 1
  induction bs with
  | nil => rfl
  | cons b bs ih =>
    by_cases hb : t₀.Safe shows b.node
    · rw [sheltered_cons hb, List.findSome?_cons, List.findSome?_cons, ih]
    · have hne : b.node ≠ x := by
        rintro rfl
        exact hb hx
      rw [sheltered_cons_of_not hb, List.findSome?_cons, if_neg hne, ih]

namespace Restorable

/-- What is known while no element shows a text is known of the nodes that stay safe later, and of
    their bindings. -/
theorem weaken (h : Restorable t₀ (fun _ => False) bs t) (ht : t₀.Tree) :
    Restorable t₀ shows (sheltered t₀ shows bs) t := by
  have hsub : ∀ b ∈ sheltered t₀ shows bs, b ∈ bs := fun b hb => (mem_sheltered.1 hb).1
  constructor
  case sound => exact h.sound
  case stays => exact fun x hx => h.stays x hx.live.safe
  case kind => exact fun x hx => h.kind x hx.live.safe
  case above => exact fun x hx => h.above x hx.live.safe
  case safe => exact fun b hb => (mem_sheltered.1 hb).2
  case made =>
    intro b hb o ho
    obtain ⟨hlive, hnew, hkind⟩ := h.made b (hsub b hb) o ho
    exact ⟨hlive, fun hx => hnew hx.live.safe, hkind⟩
  case ownAbove => exact fun b hb => h.ownAbove b (hsub b hb)
  case distinct => exact h.distinct.sublist ((sheltered_sublist bs).flatMap _)
  case aside => exact fun b hb => h.aside b (hsub b hb)
  case out => exact fun b hb => h.out b (hsub b hb)
  case once => exact h.once.sublist (sheltered_sublist bs)
  case slots =>
    intro q hq hshows
    rw [h.slots q hq.live.outside id]
    exact List.flatMap_congr fun x hx =>
      (standIns_sheltered ((hq.child ht hshows hx).safe ht)).symm

end Restorable

end ReactiveTemplate
