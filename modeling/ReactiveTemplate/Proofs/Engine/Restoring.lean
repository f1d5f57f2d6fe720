import ReactiveTemplate.Proofs.Document.Failures
import ReactiveTemplate.Proofs.Document.Guards
import ReactiveTemplate.Proofs.Engine.Slots

/-!
# Documents that can be restored

Bindings take elements out of their slots and put placeholders and copies there. However they are
nested, each slot of the first document holds either its node or what stands in for it, so undoing
the bindings in any order gives the slots back. What lies inside an element that shows a text is
up to the text, and nothing is said of it.

* `HostTree.Inside`, `HostTree.Safe`: the nodes inside such elements, and those that no text takes
  away.
* `standIns`: what stands in the slot of a node.
* `Restorable`: the invariant that ties the document to the first one.
* `Restorable.drop`, `Restorable.add`: a binding less, and a further one.
* `Restorable.takeOut`, `Restorable.putBack`: another node in a slot, and the old one again.
* `HostTree.KeepsPlaces`, `Restorable.keepsPlaces`: changes that leave every node in its place.
* `HostTree.Repainted`: a change of what a node shows.
* `Restorable.nothing_left`: without bindings the first document is back.
-/

namespace ReactiveTemplate

/-! ## Nodes of the first document -/

namespace HostTree

/-- A node inside an element that shows a text. -/
def Inside {α : Type} (t₀ : HostTree α) (shows : NodeId → Prop) (x : NodeId) : Prop :=
  ∃ y, shows y ∧ y ≠ x ∧ t₀.Below y x

/-- A node that does not go when texts inside elements that show one go. -/
structure Safe {α : Type} (t₀ : HostTree α) (shows : NodeId → Prop) (x : NodeId) : Prop where
  live : t₀.Live x
  clear : ∀ y, t₀.Below y x → (t₀.figure y).kind = .text → ¬ t₀.Inside shows y

variable {α : Type} {t₀ : HostTree α} {shows : NodeId → Prop} {x p q : NodeId}

theorem Safe.parent (ht : t₀.Tree) (hx : t₀.Safe shows x) (hp : t₀.parent? x = some p) :
    t₀.Safe shows p :=
  ⟨ht.live_parent hp, fun y hy => hx.clear y (hy.tail (ht.listed hp))⟩

theorem Safe.ne_root (ht : t₀.Tree) (hp : t₀.parent? x = some p) : x ≠ root :=
  ht.linked.ne_root (ht.listed hp)

theorem Tree.root_safe (ht : t₀.Tree) : t₀.Safe shows root := by
  refine ⟨ht.linked.rooted, fun y hy _ hinside => ?_⟩
  -- Nothing is above the document node, so it is inside nothing.
  obtain ⟨z, -, hne, hbelow⟩ := hinside
  rcases Relation.ReflTransGen.cases_tail hy with rfl | ⟨p, -, hp⟩
  · exact ht.linked.not_below_root hne hbelow
  · exact ht.linked.ne_root hp rfl

/-- A node outside of all elements that show a text. -/
structure Outside (t₀ : HostTree α) (shows : NodeId → Prop) (x : NodeId) : Prop where
  live : t₀.Live x
  out : ¬ t₀.Inside shows x

/-- As long as no element shows a text, all nodes are safe. -/
theorem Live.safe (hx : t₀.Live x) : t₀.Safe (fun _ => False) x :=
  ⟨hx, fun _ _ _ hinside => hinside.elim fun _ h => h.1⟩

theorem Live.outside (hx : t₀.Live x) : t₀.Outside (fun _ => False) x :=
  ⟨hx, fun hinside => hinside.elim fun _ h => h.1⟩

/-- What lies above a node inside an element lies inside it too, or is the element. -/
theorem Inside.below (ht : t₀.Tree) (hx : t₀.Inside shows x) (hbelow : t₀.Below x p) :
    t₀.Inside shows p := by
  obtain ⟨y, hy, hne, hyx⟩ := hx
  refine ⟨y, hy, ?_, hyx.trans hbelow⟩
  rintro rfl
  rcases Relation.ReflTransGen.cases_tail hyx with heq | ⟨q, hyq, hqx⟩
  · exact hne heq.symm
  · exact ht.acyclic.not_below hqx (hbelow.trans hyq)

theorem Outside.safe (ht : t₀.Tree) (hx : t₀.Outside shows x) : t₀.Safe shows x :=
  ⟨hx.live, fun _ hbelow _ hinside => hx.out (hinside.below ht hbelow)⟩

/-- The children of a node outside are outside, unless the node shows a text. -/
theorem Outside.child (ht : t₀.Tree) (hq : t₀.Outside shows q) (hshows : ¬ shows q)
    (hx : x ∈ t₀.children q) : t₀.Outside shows x := by
  refine ⟨ht.linked.live hx, ?_⟩
  rintro ⟨y, hy, hne, hbelow⟩
  obtain ⟨p, hp, hyp⟩ := ht.linked.below_parent hbelow hne.symm
  obtain rfl : q = p := Option.some.inj ((ht.linked.child hx).symm.trans hp)
  by_cases heq : y = q
  · exact hshows (heq ▸ hy)
  · exact hq.out ⟨y, hy, heq, hyp⟩

end HostTree

/-! ## What stands in for a node -/

/-- What a binding has put into the slot of its node, if it has taken the node out. -/
def Binding.standIn? (b : Binding) : Option (List NodeId) :=
  match b.directive with
  | .presence _ placeholder false => some [placeholder]
  | .repetition _ _ placeholder rendered => some (placeholder :: rendered)
  | _ => none

/-- What stands in the slot of a node: the node itself where no binding has taken it out. -/
def standIns (bs : List Binding) (x : NodeId) : List NodeId :=
  (bs.findSome? fun b => if b.node = x then b.standIn? else none).getD [x]

variable {t₀ t t' : HostTree Reaction} {shows : NodeId → Prop} {bs front back : List Binding}
  {b c d : Binding} {x y p q o copy placeholder : NodeId} {os : List NodeId}

theorem Binding.mem_own_of_standIn? (h : b.standIn? = some os) (ho : o ∈ os) : o ∈ b.own := by
  rw [standIn?] at h
  rw [own]
  cases hdir : b.directive with
  | presence e placeholder present =>
    rw [hdir] at h
    cases present with
    | true => cases h
    | false =>
      rw [← Option.some.inj h] at ho
      exact ho
  | repetition clause template placeholder rendered =>
    rw [hdir] at h
    rw [← Option.some.inj h] at ho
    exact List.mem_cons_of_mem _ ho
  | _ =>
    rw [hdir] at h
    cases h

/-- With its node in the slot, a binding keeps only what it has made aside. -/
theorem Binding.mem_own_of_mem_aside (hin : b.standIn? = none) (ho : o ∈ b.aside) : o ∈ b.own := by
  rw [standIn?] at hin
  rw [aside] at ho
  rw [own]
  cases hdir : b.directive with
  | presence e placeholder present =>
    rw [hdir] at hin ho
    cases present with
    | true => exact ho
    | false => cases hin
  | repetition clause template placeholder rendered =>
    rw [hdir] at hin
    cases hin
  | _ =>
    rw [hdir] at ho
    cases ho

theorem standIns_of_none (h : ∀ b ∈ bs, b.node = x → b.standIn? = none) : standIns bs x = [x] := by
  rw [standIns, List.findSome?_eq_none_iff.2, Option.getD_none]
  intro b hb
  split
  · next hnode => exact h b hb hnode
  · rfl

theorem standIns_beside (h : b.node ≠ x ∨ b.standIn? = none) :
    standIns (front ++ b :: back) x = standIns (front ++ back) x := by
  have hnone : (if b.node = x then b.standIn? else none) = none := by
    split
    · next heq => exact h.resolve_left (not_not.2 heq)
    · rfl
  simp only [standIns, List.findSome?_append, List.findSome?_cons, hnone]

theorem standIns_self (hos : b.standIn? = some os)
    (h : ∀ c ∈ front ++ back, c.node = b.node → c.standIn? = none) :
    standIns (front ++ b :: back) b.node = os := by
  have hfront : front.findSome? (fun c => if c.node = b.node then c.standIn? else none) = none := by
    refine List.findSome?_eq_none_iff.2 fun c hc => ?_
    split
    · next hnode => exact h c (List.mem_append_left _ hc) hnode
    · rfl
  simp only [standIns, List.findSome?_append, List.findSome?_cons, hfront, hos, if_pos,
    Option.none_or, Option.getD_some]

theorem exists_of_mem_standIns (h : y ∈ standIns bs x) :
    y = x ∨ ∃ b ∈ bs, b.node = x ∧ ∃ os, b.standIn? = some os ∧ y ∈ os := by
  rw [standIns] at h
  cases hfind : bs.findSome? fun b => if b.node = x then b.standIn? else none with
  | none =>
    rw [hfind] at h
    exact .inl (List.mem_singleton.1 h)
  | some os =>
    rw [hfind, Option.getD_some] at h
    obtain ⟨b, hb, hos⟩ := List.exists_of_findSome?_eq_some hfind
    split at hos
    · next hnode => exact .inr ⟨b, hb, hnode, os, hos, h⟩
    · cases hos

theorem mem_standIns (h : y ∈ standIns bs x) : y = x ∨ ∃ b ∈ bs, b.node = x ∧ y ∈ b.own := by
  rcases exists_of_mem_standIns h with heq | ⟨b, hb, hnode, os, hos, hy⟩
  · exact .inl heq
  · exact .inr ⟨b, hb, hnode, Binding.mem_own_of_standIn? hos hy⟩

/-! ## The invariant -/

/-- Of two bindings of one node, at most one has taken it out. -/
def TakenOnce (bs : List Binding) : Prop :=
  bs.Pairwise fun b c => b.node = c.node → b.standIn? = none ∨ c.standIn? = none

/-- What is known of a node that a binding has made. -/
structure Made (t₀ : HostTree Reaction) (shows : NodeId → Prop) (t : HostTree Reaction) (o : NodeId) :
    Prop where
  live : t.Live o
  new : ¬ t₀.Safe shows o
  kind : (t.figure o).kind ≠ .text

theorem Made.of_content (h : Made t₀ shows t o) (hcontent : t'.content o = t.content o) :
    Made t₀ shows t' o := by
  refine ⟨h.live.of_content hcontent, h.new, ?_⟩
  rw [HostTree.figure_eq_of_content_eq hcontent]
  exact h.kind

/-- The invariant that ties a document to the bindings that change it. -/
structure Restorable (t₀ : HostTree Reaction) (shows : NodeId → Prop) (bs : List Binding)
    (t : HostTree Reaction) : Prop where
  sound : t.Sound
  stays : ∀ x, t₀.Safe shows x → t.Live x
  kind : ∀ x, t₀.Safe shows x → (t.figure x).kind = (t₀.figure x).kind
  /-- A safe node is below its parent or on its own. -/
  above : ∀ x, t₀.Safe shows x → t.parent? x = none ∨ t.parent? x = t₀.parent? x
  safe : ∀ b ∈ bs, t₀.Safe shows b.node
  made : ∀ b ∈ bs, ∀ o ∈ b.own, Made t₀ shows t o
  ownAbove : ∀ b ∈ bs, ∀ o ∈ b.own, t.parent? o = none ∨ t.parent? o = t₀.parent? b.node
  distinct : (bs.flatMap Binding.own).Nodup
  /-- What a binding keeps aside is on its own. -/
  aside : ∀ b ∈ bs, ∀ o ∈ b.aside, t.parent? o = none
  /-- A node that was taken out had a slot, and is on its own. -/
  out : ∀ b ∈ bs, b.standIn? ≠ none → t.parent? b.node = none ∧ ∃ p, t₀.parent? b.node = some p
  once : TakenOnce bs
  slots : ∀ q, t₀.Outside shows q → ¬ shows q →
    t.children q = (t₀.children q).flatMap (standIns bs)

namespace Restorable

/-- Without bindings the document is the first one. -/
theorem start (h : t₀.Sound) : Restorable t₀ shows [] t₀ where
  sound := h
  stays _ hx := hx.live
  kind _ _ := rfl
  above _ _ := .inr rfl
  safe := nofun
  made := nofun
  ownAbove := nofun
  distinct := List.nodup_nil
  aside := nofun
  out := nofun
  once := List.Pairwise.nil
  slots _ _ _ := (List.flatMap_singleton' _).symm

/-- The parent of a safe node is its parent in the first document. -/
theorem parent_of_safe (h : Restorable t₀ shows bs t) (hx : t₀.Safe shows x)
    (hp : t.parent? x = some p) : t₀.parent? x = some p := by
  rcases h.above x hx with hnone | hsame
  · rw [hnone] at hp
    cases hp
  · exact hsame ▸ hp

/-- Above a safe node there are safe nodes only, in their old order. -/
theorem safe_of_below (h : Restorable t₀ shows bs t) (ht : t₀.Tree) (hx : t₀.Safe shows x)
    (hbelow : t.Below y x) : t₀.Safe shows y ∧ t₀.Below y x := by
  induction hbelow with
  | refl => exact ⟨hx, HostTree.Below.refl t₀ y⟩
  | @tail z x _ hzx ih =>
    have hparent := h.parent_of_safe hx (h.sound.tree.linked.child hzx)
    obtain ⟨hy, hbelow⟩ := ih (hx.parent ht hparent)
    exact ⟨hy, hbelow.tail (ht.listed hparent)⟩

/-- The parent of a node that a binding has made is the old parent of its element. -/
theorem parent_of_own (h : Restorable t₀ shows bs t) (hb : b ∈ bs) (ho : o ∈ b.own)
    (hp : t.parent? o = some p) : t₀.parent? b.node = some p := by
  rcases h.ownAbove b hb o ho with hnone | hsame
  · rw [hnone] at hp
    cases hp
  · exact hsame ▸ hp

/-- Above a node that a binding has made there are nodes of the first document only. -/
theorem safe_of_below_own (h : Restorable t₀ shows bs t) (ht : t₀.Tree) (hb : b ∈ bs)
    (ho : o ∈ b.own) (hbelow : t.Below y o) (hne : y ≠ o) :
    t₀.Safe shows y ∧ t₀.Below y b.node := by
  obtain ⟨p, hp, hyp⟩ := h.sound.tree.linked.below_parent hbelow hne.symm
  have hparent := h.parent_of_own hb ho hp
  obtain ⟨hy, hbelow₀⟩ := h.safe_of_below ht ((h.safe b hb).parent ht hparent) hyp
  exact ⟨hy, hbelow₀.tail (ht.listed hparent)⟩

theorem not_safe_own (h : Restorable t₀ shows bs t) (hb : b ∈ bs) (ho : o ∈ b.own)
    (hx : t₀.Safe shows x) : o ≠ x := by
  rintro rfl
  exact (h.made b hb o ho).new hx

/-- What stands in for other nodes is nothing that a binding has made. -/
theorem not_mem_standIns (h : Restorable t₀ shows bs t) (hb : b ∈ bs) (ho : o ∈ b.own)
    (hx : t₀.Safe shows x) (hne : x ≠ b.node) : o ∉ standIns bs x := by
  intro hmem
  rcases mem_standIns hmem with rfl | ⟨c, hc, hnode, hoc⟩
  · exact (h.made b hb o ho).new hx
  · have hbc := own_unique h.distinct hb hc ho hoc
    exact hne (hbc ▸ hnode).symm

/-- What stands in for other nodes is no safe node. -/
theorem not_mem_standIns_of_safe (h : Restorable t₀ shows bs t) (hy : t₀.Safe shows y) (hne : x ≠ y) :
    y ∉ standIns bs x := by
  intro hmem
  rcases mem_standIns hmem with rfl | ⟨c, hc, -, hoc⟩
  · exact hne rfl
  · exact (h.made c hc y hoc).new hy

/-- A node that has a parent was not taken out. -/
theorem not_out (h : Restorable t₀ shows bs t) (hp : t.parent? x = some p) (hc : c ∈ bs)
    (hnode : c.node = x) : c.standIn? = none := by
  by_contra hout
  rw [← hnode, (h.out c hc hout).1] at hp
  cases hp

end Restorable

/-! ## One binding more or less -/

theorem takenOnce_insert : TakenOnce (front ++ b :: back) ↔ TakenOnce (front ++ back) ∧
    ∀ c ∈ front ++ back, c.node = b.node → c.standIn? = none ∨ b.standIn? = none := by
  simp only [TakenOnce, List.pairwise_append, List.pairwise_cons, List.mem_cons, List.mem_append]
  constructor
  · rintro ⟨hfront, ⟨hb, hback⟩, hacross⟩
    refine ⟨⟨hfront, hback, fun a ha c hc => hacross a ha c (.inr hc)⟩, ?_⟩
    rintro c (hc | hc) hnode
    · exact hacross c hc b (.inl rfl) hnode
    · exact (hb c hc hnode.symm).symm
  · rintro ⟨⟨hfront, hback, hacross⟩, hb⟩
    refine ⟨hfront, ⟨fun c hc hnode => (hb c (.inr hc) hnode.symm).symm, hback⟩, ?_⟩
    rintro a ha c (rfl | hc) hnode
    · exact hb a (.inl ha) hnode
    · exact hacross a ha c hc hnode

theorem mem_insert : c ∈ front ++ b :: back ↔ c = b ∨ c ∈ front ++ back := by
  simp only [List.mem_append, List.mem_cons]
  tauto

theorem nodup_own_insert : ((front ++ b :: back).flatMap Binding.own).Nodup ↔
    ((front ++ back).flatMap Binding.own).Nodup ∧ b.own.Nodup ∧
      ∀ c ∈ front ++ back, ∀ o ∈ c.own, o ∉ b.own := by
  have hperm : ((front ++ b :: back).flatMap Binding.own).Perm
      (b.own ++ (front ++ back).flatMap Binding.own) := by
    rw [← List.flatMap_cons]
    exact List.Perm.flatMap_right _ List.perm_middle
  rw [hperm.nodup_iff, List.nodup_append]
  constructor
  · rintro ⟨hb, hothers, hapart⟩
    exact ⟨hothers, hb, fun c hc o ho hob => hapart o hob o (List.mem_flatMap.2 ⟨c, hc, ho⟩) rfl⟩
  · rintro ⟨hothers, hb, hapart⟩
    refine ⟨hb, hothers, fun o ho q hq heq => ?_⟩
    obtain ⟨c, hc, hqc⟩ := List.mem_flatMap.1 hq
    exact hapart c hc q hqc (heq ▸ ho)

namespace Restorable

/-- A binding is forgotten whose node is in its slot, or whose slot does not matter. -/
theorem drop (h : Restorable t₀ shows (front ++ b :: back) t)
    (hslot : b.standIn? = none ∨ ∀ q, t₀.Outside shows q → ¬ shows q → b.node ∉ t₀.children q) :
    Restorable t₀ shows (front ++ back) t where
  sound := h.sound
  stays := h.stays
  kind := h.kind
  above := h.above
  safe c hc := h.safe c (mem_insert.2 (.inr hc))
  made c hc := h.made c (mem_insert.2 (.inr hc))
  ownAbove c hc := h.ownAbove c (mem_insert.2 (.inr hc))
  distinct := (nodup_own_insert.1 h.distinct).1
  aside c hc := h.aside c (mem_insert.2 (.inr hc))
  out c hc := h.out c (mem_insert.2 (.inr hc))
  once := (takenOnce_insert.1 h.once).1
  slots q hq hshows := by
    rw [h.slots q hq hshows]
    refine List.flatMap_congr fun x hx => standIns_beside ?_
    refine hslot.symm.imp_left fun hout hnode => ?_
    exact hout q hq hshows (hnode ▸ hx)

/-- A binding is added that has left its node in its slot. -/
theorem add (h : Restorable t₀ shows (front ++ back) t) (hd : t₀.Safe shows d.node)
    (hmade : ∀ o ∈ d.own, Made t₀ shows t o ∧ t.parent? o = none) (hin : d.standIn? = none)
    (hown : d.own.Nodup) (hapart : ∀ c ∈ front ++ back, ∀ o ∈ c.own, o ∉ d.own) :
    Restorable t₀ shows (front ++ d :: back) t where
  sound := h.sound
  stays := h.stays
  kind := h.kind
  above := h.above
  safe c hc := by
    rcases mem_insert.1 hc with rfl | hc
    · exact hd
    · exact h.safe c hc
  made c hc := by
    rcases mem_insert.1 hc with rfl | hc
    · exact fun o ho => (hmade o ho).1
    · exact h.made c hc
  ownAbove c hc := by
    rcases mem_insert.1 hc with rfl | hc
    · exact fun o ho => .inl (hmade o ho).2
    · exact h.ownAbove c hc
  distinct := nodup_own_insert.2 ⟨h.distinct, hown, hapart⟩
  aside c hc := by
    rcases mem_insert.1 hc with rfl | hc
    · exact fun o ho => (hmade o (Binding.mem_own_of_mem_aside hin ho)).2
    · exact h.aside c hc
  out c hc hout := by
    rcases mem_insert.1 hc with rfl | hc
    · exact absurd hin hout
    · exact h.out c hc hout
  once := takenOnce_insert.2 ⟨h.once, fun _ _ _ => .inr hin⟩
  slots q hq hshows := by
    rw [h.slots q hq hshows]
    exact List.flatMap_congr fun x _ => (standIns_beside (.inr hin)).symm

/-! ## Another node in a slot -/

/-- A node has the parent it had, or none, unless it went into the slot. -/
theorem parent?_of_exchange {old new : NodeId}
    (habove : ∀ x, t'.parent? x =
      if x = old then none else if x = new then some p else t.parent? x)
    (hx : x ≠ new) {above : Option NodeId} (h : t.parent? x = none ∨ t.parent? x = above) :
    t'.parent? x = none ∨ t'.parent? x = above := by
  rw [habove, if_neg hx]
  split
  · exact .inl rfl
  · exact h

/-- A node without a parent gets none, unless it went into the slot. -/
theorem loose_of_exchange {old new : NodeId}
    (habove : ∀ x, t'.parent? x =
      if x = old then none else if x = new then some p else t.parent? x)
    (hx : x ≠ new) (h : t.parent? x = none) : t'.parent? x = none :=
  or_self_iff.1 (parent?_of_exchange habove hx (.inl h))

/-- A node goes out of its slot, and a placeholder into it. -/
theorem takeOut (h : Restorable t₀ shows (front ++ back) t) (ht : t₀.Tree)
    (hd : t₀.Safe shows d.node) (hp : t.parent? d.node = some p)
    (hin : d.standIn? = some [placeholder]) (hmade : ∀ o ∈ d.own, Made t₀ shows t o ∧ t.parent? o = none)
    (hown : d.own.Nodup) (hapart : ∀ c ∈ front ++ back, ∀ o ∈ c.own, o ∉ d.own)
    (haside : ∀ o ∈ d.aside, o = d.node ∨ o ∈ d.own ∧ o ≠ placeholder) :
    ∃ t', t.replace d.node placeholder = (.ok (), t') ∧
      Restorable t₀ shows (front ++ d :: back) t' ∧ t.Swapped t' d.node [placeholder] := by
  have hplaceholder : placeholder ∈ d.own := Binding.mem_own_of_standIn? hin (by simp)
  obtain ⟨⟨hlive, hnew, -⟩, hfree⟩ := hmade placeholder hplaceholder
  have hparent := h.parent_of_safe hd hp
  have hne : placeholder ≠ d.node := by
    rintro rfl
    exact hnew hd
  have hroot : placeholder ≠ HostTree.root := by
    rintro rfl
    exact hnew ht.root_safe
  obtain ⟨t', hreplace, hswap, habove⟩ := HostTree.replace_swaps h.sound hp hlive hfree hroot
    fun hbelow => hnew (h.safe_of_below ht (hd.parent ht hparent) hbelow).1
  refine ⟨t', hreplace, ?_, hswap⟩
  constructor
  case sound => exact hswap.sound
  case stays => exact fun x hx => (h.stays x hx).of_content (hswap.content x)
  case kind =>
    intro x hx
    rw [HostTree.figure_eq_of_content_eq (hswap.content x)]
    exact h.kind x hx
  case above =>
    exact fun x hx => parent?_of_exchange habove (fun heq => hnew (heq ▸ hx)) (h.above x hx)
  case safe =>
    intro c hc
    rcases mem_insert.1 hc with rfl | hc
    · exact hd
    · exact h.safe c hc
  case made =>
    intro c hc o ho
    rcases mem_insert.1 hc with rfl | hc
    · exact (hmade o ho).1.of_content (hswap.content o)
    · exact (h.made c hc o ho).of_content (hswap.content o)
  case ownAbove =>
    intro c hc o ho
    rcases mem_insert.1 hc with rfl | hc
    · by_cases heq : o = placeholder
      · rw [habove, heq, if_neg hne, if_pos rfl, hparent]
        exact .inr rfl
      · exact .inl (loose_of_exchange habove heq (hmade o ho).2)
    · have heq : o ≠ placeholder := fun heq => hapart c hc o ho (heq ▸ hplaceholder)
      exact parent?_of_exchange habove heq (h.ownAbove c hc o ho)
  case distinct => exact nodup_own_insert.2 ⟨h.distinct, hown, hapart⟩
  case aside =>
    intro c hc o ho
    rcases mem_insert.1 hc with rfl | hc
    · rcases haside o ho with rfl | ⟨hoc, heq⟩
      · rw [habove, if_pos rfl]
      · exact loose_of_exchange habove heq (hmade o hoc).2
    · have heq : o ≠ placeholder := by
        rintro rfl
        rcases (Binding.mem_of_mem_aside ho).2 with heq | hoc
        · exact hnew (heq ▸ h.safe c hc)
        · exact hapart c hc o hoc hplaceholder
      exact loose_of_exchange habove heq (h.aside c hc o ho)
  case out =>
    intro c hc hout
    rcases mem_insert.1 hc with rfl | hc
    · exact ⟨by rw [habove, if_pos rfl], p, hparent⟩
    · obtain ⟨hnone, hslot⟩ := h.out c hc hout
      have heq : c.node ≠ placeholder := fun heq => hnew (heq ▸ h.safe c hc)
      exact ⟨loose_of_exchange habove heq hnone, hslot⟩
  case once =>
    exact takenOnce_insert.2 ⟨h.once, fun c hc hnode => .inl (h.not_out hp hc hnode)⟩
  case slots =>
    intro q hq hshows
    rw [hswap.children, h.slots q hq hshows, List.flatMap_assoc]
    refine List.flatMap_congr fun x hx => ?_
    by_cases heq : x = d.node
    · rw [heq, standIns_of_none fun c hc => h.not_out hp hc,
        standIns_self hin fun c hc => h.not_out hp hc, List.flatMap_singleton, HostTree.swap_self]
    · rw [standIns_beside (.inl (Ne.symm heq))]
      exact HostTree.flatMap_swap_of_not_mem (h.not_mem_standIns_of_safe hd heq)

/-- A placeholder goes out of a slot, and the node back into it. -/
theorem putBack (h : Restorable t₀ shows (front ++ b :: back) t) (ht : t₀.Tree)
    (hout : b.standIn? = some [placeholder]) (hp : t.parent? placeholder = some p) :
    ∃ t', t.replace placeholder b.node = (.ok (), t') ∧
      Restorable t₀ shows (front ++ back) t' ∧ t.Swapped t' placeholder [b.node] ∧
      (t'.parent? placeholder = none ∧ ∀ x, x ≠ b.node → t.parent? x = none → t'.parent? x = none) := by
  have hb : b ∈ front ++ b :: back := mem_insert.2 (.inl rfl)
  have hplaceholder : placeholder ∈ b.own := Binding.mem_own_of_standIn? hout (by simp)
  have hsafe := h.safe b hb
  have hparent := h.parent_of_own hb hplaceholder hp
  have hne : b.node ≠ placeholder := (h.not_safe_own hb hplaceholder hsafe).symm
  have hfree := (h.out b hb (by rw [hout]; exact nofun)).1
  have hothers : ∀ c ∈ front ++ back, c.node = b.node → c.standIn? = none := by
    intro c hc hnode
    refine ((takenOnce_insert.1 h.once).2 c hc hnode).resolve_right ?_
    rw [hout]
    exact nofun
  obtain ⟨t', hreplace, hswap, habove⟩ := HostTree.replace_swaps h.sound hp
    (h.stays _ hsafe) hfree (HostTree.Safe.ne_root ht hparent) fun hbelow =>
      ht.acyclic.not_below (ht.listed hparent) (h.safe_of_below ht (hsafe.parent ht hparent) hbelow).2
  refine ⟨t', hreplace, ?_, hswap, by rw [habove, if_pos rfl],
    fun x hx hnone => loose_of_exchange habove hx hnone⟩
  constructor
  case sound => exact hswap.sound
  case stays => exact fun x hx => (h.stays x hx).of_content (hswap.content x)
  case kind =>
    intro x hx
    rw [HostTree.figure_eq_of_content_eq (hswap.content x)]
    exact h.kind x hx
  case above =>
    intro x hx
    by_cases heq : x = b.node
    · rw [habove, heq, if_neg hne, if_pos rfl, hparent]
      exact .inr rfl
    · exact parent?_of_exchange habove heq (h.above x hx)
  case safe => exact fun c hc => h.safe c (mem_insert.2 (.inr hc))
  case made =>
    exact fun c hc o ho => (h.made c (mem_insert.2 (.inr hc)) o ho).of_content (hswap.content o)
  case ownAbove =>
    intro c hc o ho
    have hc' : c ∈ front ++ b :: back := mem_insert.2 (.inr hc)
    exact parent?_of_exchange habove (h.not_safe_own hc' ho hsafe) (h.ownAbove c hc' o ho)
  case distinct => exact (nodup_own_insert.1 h.distinct).1
  case aside =>
    intro c hc o ho
    have hnone := h.aside c (mem_insert.2 (.inr hc)) o ho
    by_cases heq : o = b.node
    · -- Only a node that was taken out is kept aside.
      rcases (Binding.mem_of_mem_aside ho).2 with hnode | hoc
      · have hin := hothers c hc (hnode ▸ heq)
        have hoc := Binding.mem_own_of_mem_aside hin ho
        exact absurd heq (h.not_safe_own (mem_insert.2 (.inr hc)) hoc hsafe)
      · exact absurd heq (h.not_safe_own (mem_insert.2 (.inr hc)) hoc hsafe)
    · exact loose_of_exchange habove heq hnone
  case out =>
    intro c hc houtc
    obtain ⟨hnone, hslot⟩ := h.out c (mem_insert.2 (.inr hc)) houtc
    have heq : c.node ≠ b.node := fun heq => houtc (hothers c hc heq)
    exact ⟨loose_of_exchange habove heq hnone, hslot⟩
  case once => exact (takenOnce_insert.1 h.once).1
  case slots =>
    intro q hq hshows
    rw [hswap.children, h.slots q hq hshows, List.flatMap_assoc]
    refine List.flatMap_congr fun x hx => ?_
    by_cases heq : x = b.node
    · rw [heq, standIns_self hout hothers, standIns_of_none hothers, List.flatMap_singleton,
        HostTree.swap_self]
    · have hout := h.not_mem_standIns hb hplaceholder ((hq.child ht hshows hx).safe ht) heq
      rw [HostTree.flatMap_swap_of_not_mem hout, standIns_beside (.inl (Ne.symm heq))]

end Restorable

/-! ## Changes that keep all places -/

namespace HostTree

variable {α : Type} {t t' t'' : HostTree α} {id y : NodeId}

/-- A change that leaves every node in its place; there may be further nodes. -/
structure KeepsPlaces (t t' : HostTree α) : Prop where
  sound : t'.Sound
  live : ∀ y, t.Live y → t'.Live y
  kind : ∀ y, t.Live y → (t'.figure y).kind = (t.figure y).kind
  parent : ∀ y, t.Live y → t'.parent? y = t.parent? y
  children : ∀ y, t.Live y → t'.children y = t.children y

theorem KeepsPlaces.refl (h : t.Sound) : t.KeepsPlaces t :=
  ⟨h, fun _ hy => hy, fun _ _ => rfl, fun _ _ => rfl, fun _ _ => rfl⟩

theorem KeepsPlaces.trans (h : t.KeepsPlaces t') (h' : t'.KeepsPlaces t'') : t.KeepsPlaces t'' where
  sound := h'.sound
  live y hy := h'.live y (h.live y hy)
  kind y hy := (h'.kind y (h.live y hy)).trans (h.kind y hy)
  parent y hy := (h'.parent y (h.live y hy)).trans (h.parent y hy)
  children y hy := (h'.children y (h.live y hy)).trans (h.children y hy)

/-- Beside all nodes there is room for further ones only. -/
theorem Beside.keepsPlaces (h : Beside t.Live t t') : t.KeepsPlaces t' where
  sound := h.sound
  live y hy := hy.of_node? (h.same y hy)
  kind y hy := congrArg Figure.kind (figure_eq_of_node?_eq (h.same y hy))
  parent y hy := parent?_eq_of_node?_eq (h.same y hy)
  children y hy := children_eq_of_node?_eq (h.same y hy)

theorem KeepsPlaces.modify (h : t.Sound) (id : NodeId) {change : Node α → Node α}
    (hkind : ∀ n, (change n).kind = n.kind) (hparent : ∀ n, (change n).parent = n.parent)
    (hchildren : ∀ n, (change n).children = n.children) : t.KeepsPlaces (t.modify id change) where
  sound := h.touch id hparent hchildren
  live _ hy := live_modify hy id change
  kind y _ := figure_modify Figure.kind hkind id y
  parent y _ := by
    have helim : ∀ n? : Option (Node α), n?.bind Node.parent = n?.elim none Node.parent := by
      rintro (_ | n) <;> rfl
    rw [parent?, parent?, helim, helim]
    exact elim_modify hparent none id y
  children y _ := elim_modify hchildren [] id y

theorem KeepsPlaces.update (h : t.Sound) {change : Node α → Node α}
    (hupdate : t.update id change = .ok t') (hkind : ∀ n, (change n).kind = n.kind)
    (hparent : ∀ n, (change n).parent = n.parent)
    (hchildren : ∀ n, (change n).children = n.children) : t.KeepsPlaces t' :=
  eq_modify_of_update hupdate ▸ KeepsPlaces.modify h id hkind hparent hchildren

/-- A change of what a node shows, which is neither its place nor its listeners. -/
structure Repainted (t t' : HostTree α) (id : NodeId) : Prop where
  change : ∃ change : Node α → Node α, t' = t.modify id change ∧ (∀ n, (change n).kind = n.kind) ∧
    (∀ n, (change n).listeners = n.listeners) ∧ (∀ n, (change n).parent = n.parent) ∧
    ∀ n, (change n).children = n.children

namespace Repainted

theorem of_update {change : Node α → Node α} (hupdate : t.update id change = .ok t')
    (hkind : ∀ n, (change n).kind = n.kind) (hlisteners : ∀ n, (change n).listeners = n.listeners)
    (hparent : ∀ n, (change n).parent = n.parent)
    (hchildren : ∀ n, (change n).children = n.children) : t.Repainted t' id :=
  ⟨change, eq_modify_of_update hupdate, hkind, hlisteners, hparent, hchildren⟩

theorem keepsPlaces (h : t.Repainted t' id) (hs : t.Sound) : t.KeepsPlaces t' := by
  obtain ⟨change, rfl, hkind, -, hparent, hchildren⟩ := h.change
  exact .modify hs id hkind hparent hchildren

theorem listenersOf_eq (h : t.Repainted t' id) (hy : t.Live y) : t'.listenersOf y = t.listenersOf y := by
  obtain ⟨change, rfl, hkind, hlisteners, hparent, -⟩ := h.change
  exact (Keeps.modify hy hkind hlisteners hparent).listeners

theorem beside (h : t.Repainted t' id) (hs : t.Sound) {P : NodeId → Prop} (hid : ¬ P id) :
    Beside P t t' := by
  obtain ⟨change, rfl, -, -, hparent, hchildren⟩ := h.change
  exact .modify hs hid hparent hchildren

end Repainted

/-- Taking a listener away changes its node only, and leaves that in its place. -/
theorem removeListener_modifies {hook : Nat} (h : t.Sound)
    (hremove : t.removeListener id hook = .ok t') :
    ∃ change : Node α → Node α, t' = t.modify id change ∧ t.KeepsPlaces (t.modify id change) := by
  refine ⟨fun n => { n with listeners := n.listeners.eraseP fun l => l.id = hook }, ?_,
    .modify h id (fun _ => rfl) (fun _ => rfl) fun _ => rfl⟩
  rw [removeListener] at hremove
  cases hget : t.get id with
  | error e =>
    rw [hget] at hremove
    cases hremove
  | ok n =>
    simp only [hget, bind, Except.bind, pure, Except.pure] at hremove
    split at hremove
    · exact (Except.ok.inj hremove).symm
    · cases hremove

end HostTree

namespace Restorable

/-- What a binding keeps aside is there. -/
theorem live_aside (h : Restorable t₀ shows bs t) (hb : b ∈ bs) (ho : o ∈ b.aside) : t.Live o := by
  rcases (Binding.mem_of_mem_aside ho).2 with rfl | hoc
  · exact h.stays _ (h.safe b hb)
  · exact (h.made b hb o hoc).live

/-- While all nodes keep their places, what is known of them stays. -/
theorem keepsPlaces (h : Restorable t₀ shows bs t) (ht : t₀.Tree) (hkeeps : t.KeepsPlaces t') :
    Restorable t₀ shows bs t' where
  sound := hkeeps.sound
  stays x hx := hkeeps.live x (h.stays x hx)
  kind x hx := (hkeeps.kind x (h.stays x hx)).trans (h.kind x hx)
  above x hx := by
    rw [hkeeps.parent x (h.stays x hx)]
    exact h.above x hx
  safe := h.safe
  made b hb o ho := by
    obtain ⟨hlive, hnew, hkind⟩ := h.made b hb o ho
    exact ⟨hkeeps.live o hlive, hnew, by rwa [hkeeps.kind o hlive]⟩
  ownAbove b hb o ho := by
    rw [hkeeps.parent o (h.made b hb o ho).live]
    exact h.ownAbove b hb o ho
  distinct := h.distinct
  aside b hb o ho := by
    rw [hkeeps.parent o (h.live_aside hb ho)]
    exact h.aside b hb o ho
  out b hb hout := by
    rw [hkeeps.parent b.node (h.stays _ (h.safe b hb))]
    exact h.out b hb hout
  once := h.once
  slots q hq hshows := by
    rw [hkeeps.children q (h.stays q (hq.safe ht))]
    exact h.slots q hq hshows

/-! ## Without bindings -/

/-- Where all bindings are undone, every node outside of the elements that show a text is back in
    its place. -/
theorem nothing_left (h : Restorable t₀ shows [] t) (ht : t₀.Tree) (hx : t₀.Outside shows x) :
    t.Live x ∧ t.parent? x = t₀.parent? x ∧ (¬ shows x → t.children x = t₀.children x) := by
  have hslots : ∀ q, t₀.Outside shows q → ¬ shows q → t.children q = t₀.children q := by
    intro q hq hshows
    rw [h.slots q hq hshows]
    exact List.flatMap_singleton' _
  refine ⟨h.stays x (hx.safe ht), ?_, hslots x hx⟩
  cases hp : t₀.parent? x with
  | none =>
    rcases h.above x (hx.safe ht) with hnone | hsame
    · exact hnone
    · exact hsame.trans hp
  | some p =>
    have hlisted := ht.listed hp
    have hbelow : t₀.Below p x := (HostTree.Below.refl t₀ p).tail hlisted
    have hq : t₀.Outside shows p :=
      ⟨ht.live_parent hp, fun hinside => hx.out (hinside.below ht hbelow)⟩
    have hshows : ¬ shows p := by
      refine fun hshows => hx.out ⟨p, hshows, ?_, hbelow⟩
      rintro rfl
      exact ht.acyclic.not_below hlisted (HostTree.Below.refl t₀ p)
    refine h.sound.tree.linked.child ?_
    rwa [hslots p hq hshows]

end Restorable

end ReactiveTemplate
