import ReactiveTemplate.Proofs.Document.Counts
import ReactiveTemplate.Proofs.Engine.Upkeep

/-!
# What steps respect

Bindings have the subtrees of the nodes they have made to themselves, and elements the texts they
show. A step that is about something else leaves all of them as they are, so it leaves as many nodes
in them.

* `Private`: a subtree in which nothing else has a place.
* `Respects`: a step that leaves the subtrees of bindings and the texts of elements.
* `Held.respects_swapped`, `Held.respects_removed`, `Held.refilled`: changes of place, removals and new
  texts.
* `Contained`: a copy that holds all further nodes.
-/

namespace ReactiveTemplate

variable {t₀ t t' t'' : HostTree Reaction} {shows : NodeId → Prop} {bs bs' front back : List Binding}
  {b c d : Binding} {x y p q o u old anchor copy node template placeholder : NodeId}
  {new rest rendered : List NodeId} {clause : ForClause}

/-! ## Private subtrees -/

/-- A subtree without nodes that stay and without other nodes that bindings have made. -/
structure Private (t₀ : HostTree Reaction) (shows : NodeId → Prop) (bs : List Binding)
    (t : HostTree Reaction) (u : NodeId) : Prop where
  live : t.Live u
  safe : ∀ x, t₀.Safe shows x → ¬ t.Below u x
  own : ∀ b ∈ bs, ∀ o ∈ b.own, o ≠ u → ¬ t.Below u o ∧ ¬ t.Below o u

namespace Restorable

theorem private_own (h : Restorable t₀ shows bs t) (ht : t₀.Tree) (hb : b ∈ bs) (ho : o ∈ b.own) :
    Private t₀ shows bs t o where
  live := (h.made b hb o ho).live
  safe := (h.not_below_own ht hb ho).1
  own c hc y hy hne :=
    ⟨(h.not_below_own ht hb ho).2 c hc y hy hne, (h.not_below_own ht hc hy).2 b hb o ho (Ne.symm hne)⟩

/-- A text of an element that shows one. -/
theorem private_text (h : Restorable t₀ shows bs t) (ht : t₀.Tree) (hshows : shows x)
    (hx : t₀.Safe shows x) (hu : u ∈ t.texts x) : Private t₀ shows bs t u := by
  obtain ⟨hmem, htext⟩ := HostTree.mem_texts.1 hu
  have hl := h.sound.tree.linked
  obtain ⟨n, hn⟩ := hl.live hmem
  rw [HostTree.figure_of_node? hn] at htext
  refine ⟨⟨n, hn⟩, fun y hy => h.clearOf ht hshows hy u hmem n hn htext, fun b hb o ho hne => ?_⟩
  refine ⟨h.clearOf_own ht hshows hb ho u hmem n hn htext, fun hbelow => ?_⟩
  obtain ⟨q, hq, hoq⟩ := hl.below_parent hbelow (Ne.symm hne)
  rw [hl.child hmem, Option.some.injEq] at hq
  exact (h.not_below_own ht hb ho).1 x hx (hq ▸ hoq)

end Restorable

namespace Private

/-- A node of the first document, or another that a binding has made, is no child in it. -/
theorem not_child (h : Private t₀ shows bs t u) (hs : t.Sound)
    (hold : t₀.Safe shows old ∨ ∃ b ∈ bs, old ∈ b.own) (hy : t.Below u y) : old ∉ t.children y := by
  intro hmem
  have hbelow : t.Below u old := hy.tail hmem
  rcases hold with hsafe | ⟨b, hb, ho⟩
  · exact h.safe old hsafe hbelow
  · by_cases hne : old = u
    · exact hs.tree.acyclic.not_below hmem (hne ▸ hy)
    · exact (h.own b hb old ho hne).1 hbelow

theorem fixed_repainted (h : Private t₀ shows bs t u) (hx : t₀.Safe shows x)
    (hrepainted : t.Repainted t' x) : t.Fixed t' u := by
  obtain ⟨change, rfl, -⟩ := hrepainted.change
  exact .modify (h.safe x hx) change

theorem fixed_swapped (h : Private t₀ shows bs t u) (hs : t.Sound) (hswap : t.Swapped t' old new)
    (hold : t₀.Safe shows old ∨ ∃ b ∈ bs, old ∈ b.own) : t.Fixed t' u :=
  .swapped hswap fun _ hy => h.not_child hs hold hy

theorem fixed_removed (h : Private t₀ shows bs t u) (hs : t.Sound) (hremoved : t.Removed t' o)
    (hb : b ∈ bs) (ho : o ∈ b.own) (hne : o ≠ u) : t.Fixed t' u := by
  obtain ⟨hout, hin⟩ := h.own b hb o ho hne
  refine .removed hremoved (fun y hy hoy => ?_) hout
  rcases hs.tree.linked.below_total hy hoy with hbelow | hbelow
  · exact hout hbelow
  · exact hin hbelow

end Private

/-! ## Steps that respect subtrees -/

/-- What bindings have done to a document, where elements show the texts. -/
structure Held (t₀ : HostTree Reaction) (shows : NodeId → Prop) (bs : List Binding)
    (t : HostTree Reaction) : Prop where
  restorable : Restorable t₀ shows bs t
  shown : ∀ b ∈ bs, b.kind = .bind → shows b.node
  elements : ∀ b ∈ bs, (t₀.figure b.node).kind ≠ .text

/-- A step that leaves the subtrees that bindings have made, and as many nodes in the texts of the
    elements that show one. -/
structure Respects (bs : List Binding) (t t' : HostTree Reaction) : Prop where
  own : ∀ b ∈ bs, ∀ o ∈ b.own, t.Fixed t' o
  texts : ∀ b ∈ bs, b.kind = .bind → t'.textWeight b.node = t.textWeight b.node

namespace Respects

theorem refl (bs : List Binding) (t : HostTree Reaction) : Respects bs t t :=
  ⟨fun _ _ o _ => .refl t o, fun _ _ _ => rfl⟩

theorem trans (h : Respects bs t t') (h' : Respects bs t' t'') : Respects bs t t'' where
  own b hb o ho := (h.own b hb o ho).trans (h'.own b hb o ho)
  texts b hb hkind := (h'.texts b hb hkind).trans (h.texts b hb hkind)

/-- The same for bindings of the same nodes that have made less. -/
theorem mono (h : Respects (front ++ d :: back) t t') (hnode : d.node = b.node)
    (hkind : d.kind = b.kind) (hown : b.own ⊆ d.own) : Respects (front ++ b :: back) t t' := by
  have hd : d ∈ front ++ d :: back := mem_insert.2 (.inl rfl)
  refine ⟨fun c hc o ho => ?_, fun c hc hbind => ?_⟩
  · rcases mem_insert.1 hc with rfl | hc
    · exact h.own d hd o (hown ho)
    · exact h.own c (mem_insert.2 (.inr hc)) o ho
  · rcases mem_insert.1 hc with rfl | hc
    · exact hnode ▸ h.texts d hd (hkind.trans hbind)
    · exact h.texts c (mem_insert.2 (.inr hc)) hbind

end Respects

namespace Held

theorem sound (h : Held t₀ shows bs t) : t.Sound := h.restorable.sound

/-- A binding is exchanged for another one of its node and kind. -/
theorem exchange (h : Held t₀ shows (front ++ b :: back) t)
    (hr : Restorable t₀ shows (front ++ d :: back) t') (hnode : d.node = b.node)
    (hkind : d.kind = b.kind) : Held t₀ shows (front ++ d :: back) t' := by
  have hb : b ∈ front ++ b :: back := mem_insert.2 (.inl rfl)
  refine ⟨hr, fun c hc hbind => ?_, fun c hc => ?_⟩
  · rcases mem_insert.1 hc with rfl | hc
    · exact hnode ▸ h.shown b hb (hkind ▸ hbind)
    · exact h.shown c (mem_insert.2 (.inr hc)) hbind
  · rcases mem_insert.1 hc with rfl | hc
    · exact hnode ▸ h.elements b hb
    · exact h.elements c (mem_insert.2 (.inr hc))

theorem live_own (h : Held t₀ shows bs t) (hb : b ∈ bs) : ∀ o ∈ b.own, t.Live o := fun o ho =>
  (h.restorable.made b hb o ho).live

theorem kind_node (h : Held t₀ shows bs t) (hb : b ∈ bs) : (t.figure b.node).kind ≠ .text := by
  rw [h.restorable.kind b.node (h.restorable.safe b hb)]
  exact h.elements b hb

theorem private_text (h : Held t₀ shows bs t) (ht : t₀.Tree) (hb : b ∈ bs) (hkind : b.kind = .bind)
    (hu : u ∈ t.texts b.node) : Private t₀ shows bs t u :=
  h.restorable.private_text ht (h.shown b hb hkind) (h.restorable.safe b hb) hu

/-- A step that leaves all private subtrees, and the elements their texts. -/
theorem respects (h : Held t₀ shows bs t) (ht : t₀.Tree) (hs' : t'.Sound)
    (hfixed : ∀ u, Private t₀ shows bs t u → t.Fixed t' u)
    (htexts : ∀ b ∈ bs, b.kind = .bind → t'.texts b.node = t.texts b.node) : Respects bs t t' where
  own _ hb _ ho := hfixed _ (h.restorable.private_own ht hb ho)
  texts b hb hkind := HostTree.textWeight_congr h.sound hs' (htexts b hb hkind) fun _ hu =>
    hfixed _ (h.private_text ht hb hkind hu)

/-- A step beside all nodes. -/
theorem respects_beside (h : Held t₀ shows bs t) (ht : t₀.Tree)
    (hbeside : HostTree.Beside t.Live t t') : Respects bs t t' := by
  have hl := h.sound.tree.linked
  refine h.respects ht hbeside.sound (fun u hu => .beside hl hbeside hu.live) fun b hb _ => ?_
  have hsame := hbeside.same b.node (h.restorable.stays _ (h.restorable.safe b hb))
  refine HostTree.texts_congr (HostTree.children_eq_of_node?_eq hsame) fun c hc => ?_
  rw [HostTree.figure_eq_of_node?_eq (hbeside.same c (hl.live hc))]

/-- A node looks different. -/
theorem respects_repainted (h : Held t₀ shows bs t) (ht : t₀.Tree) (hx : t₀.Safe shows x)
    (hrepainted : t.Repainted t' x) : Respects bs t t' := by
  have hkeeps := hrepainted.keepsPlaces h.sound
  refine h.respects ht hkeeps.sound (fun u hu => hu.fixed_repainted hx hrepainted) fun b hb _ => ?_
  refine HostTree.texts_congr (hkeeps.children _ (h.restorable.stays _ (h.restorable.safe b hb)))
    fun c hc => hkeeps.kind c (h.sound.tree.linked.live hc)

/-- A change of place of nodes that are no texts. -/
theorem respects_swapped (h : Held t₀ shows bs t) (ht : t₀.Tree) (hswap : t.Swapped t' old new)
    (hold : t₀.Safe shows old ∨ ∃ b ∈ bs, old ∈ b.own) (hkind : (t.figure old).kind ≠ .text)
    (hnew : ∀ c ∈ new, (t.figure c).kind ≠ .text) : Respects bs t t' :=
  h.respects ht hswap.sound (fun _ hu => hu.fixed_swapped h.sound hswap hold)
    fun _ _ _ => hswap.texts hkind hnew

/-- A node that a binding has made is destroyed. -/
theorem respects_removed (h : Held t₀ shows (front ++ b :: back) t) (ht : t₀.Tree) (ho : o ∈ b.own)
    (hremoved : t.Removed t' o) (hnode : d.node = b.node) (hkind : d.kind = b.kind)
    (hown : ∀ y ∈ d.own, y ∈ b.own ∧ y ≠ o) : Respects (front ++ d :: back) t t' := by
  have hb : b ∈ front ++ b :: back := mem_insert.2 (.inl rfl)
  have hs := h.sound
  have hprivate := h.restorable.private_own ht hb ho
  have hothers := (nodup_own_insert.1 h.restorable.distinct).2.2
  have hfixed : ∀ u, Private t₀ shows (front ++ b :: back) t u → o ≠ u → t.Fixed t' u := fun u hu =>
    hu.fixed_removed hs hremoved hb ho
  have htexts : ∀ c ∈ front ++ b :: back, c.kind = .bind →
      t'.textWeight c.node = t.textWeight c.node := by
    intro c hc hbind
    have hout := hprivate.safe c.node (h.restorable.safe c hc)
    have hkind' := (h.restorable.made b hb o ho).kind
    refine HostTree.textWeight_congr hs hremoved.sound
      (hremoved.texts hout hs.tree.linked hkind') fun u hu => ?_
    refine hfixed u (h.private_text ht hc hbind hu) ?_
    rintro rfl
    exact hkind' (HostTree.mem_texts.1 hu).2
  constructor
  case own =>
    intro c hc y hy
    rcases mem_insert.1 hc with rfl | hc
    · obtain ⟨hmem, hne⟩ := hown y hy
      exact hfixed y (h.restorable.private_own ht hb hmem) (Ne.symm hne)
    · refine hfixed y (h.restorable.private_own ht (mem_insert.2 (.inr hc)) hy) ?_
      rintro rfl
      exact hothers c hc o hy ho
  case texts =>
    intro c hc hbind
    rcases mem_insert.1 hc with rfl | hc
    · rw [hnode]
      exact htexts b hb (hkind ▸ hbind)
    · exact htexts c (mem_insert.2 (.inr hc)) hbind

/-- An element gets a new text: the subtrees of bindings stay, and so do the texts of other
    elements. -/
theorem refilled (h : Held t₀ shows bs t) (ht : t₀.Tree) (hb : b ∈ bs) (hkind : b.kind = .bind)
    {text : String} (hset : t.setText b.node text = .ok t') :
    (∀ c ∈ bs, ∀ o ∈ c.own, t.Fixed t' o) ∧
      ∀ c ∈ bs, c.kind = .bind → c.node ≠ b.node → t'.textWeight c.node = t.textWeight c.node := by
  have hr := h.restorable
  have hs := h.sound
  have hl := hs.tree.linked
  have hshows := h.shown b hb hkind
  have hrefilled := HostTree.setText_refills hs hset
  have hsafe : ∀ x, t₀.Safe shows x → t.ClearOf (t.children b.node) x := fun x hx =>
    hr.clearOf ht hshows hx
  refine ⟨fun c hc o ho => ?_, fun c hc hbind hne => ?_⟩
  · exact hrefilled.fixed hs (hr.made c hc o ho).live (hr.clearOf_own ht hshows hc ho)
      ((hr.private_own ht hc ho).safe b.node (hr.safe b hb))
  · have hcnode := hr.safe c hc
    -- A text of another element is below no text of this one, since the element is not.
    have hclear : ∀ u ∈ t.children c.node, t.ClearOf (t.children b.node) u := by
      intro u hu d hd n hn htext hbelow
      have hdu : u ≠ d := by
        rintro rfl
        exact hne (Option.some.inj ((hl.child hu).symm.trans (hl.child hd)))
      obtain ⟨q, hq, hdq⟩ := hl.below_parent hbelow hdu
      rw [hl.child hu, Option.some.injEq] at hq
      exact hsafe c.node hcnode d hd n hn htext (hq ▸ hdq)
    have hlive := hr.stays c.node hcnode
    have hlive' := hrefilled.live c.node hlive (hsafe c.node hcnode)
    refine HostTree.textWeight_congr hs (hs.setText hset) ?_ fun u hu => ?_
    · refine HostTree.texts_congr (hrefilled.same c.node hlive hlive' hne).2 fun u hu => ?_
      exact hrefilled.kind_eq (hl.live hu) (hrefilled.live u (hl.live hu) (hclear u hu))
    · have hmem := (HostTree.mem_texts.1 hu).1
      exact hrefilled.fixed hs (hl.live hmem) (hclear u hmem)
        ((h.private_text ht hc hbind hu).safe b.node (hr.safe b hb))

end Held

/-! ## Copies on their own -/

/-- A document with a copy that is not among the others yet, which holds all further nodes. Where
    nodes of the copy have an attribute, they contain texts only. -/
structure Contained (t : HostTree Reaction) (name : String) (copy : NodeId)
    (t' : HostTree Reaction) : Prop where
  drafted : Drafted t copy t'
  whole : ∀ y, t'.Live y → t.Live y ∨ t'.Below copy y
  bare : t'.Bare name copy

/-- Nodes that keep their places keep what is above them. -/
theorem HostTree.KeepsPlaces.below {α : Type} {t t' : HostTree α} (h : t.KeepsPlaces t')
    (hl : t.Linked) (hx : t.Live x) (hbelow : t.Below x y) : t'.Below x y := by
  induction hbelow with
  | refl => exact HostTree.Below.refl t' x
  | @tail p c hp hc ih => exact ih.tail ((h.children p (Below.live hl hx hp)).symm ▸ hc)

namespace Contained

variable {name : String}

/-- Rendering a copy leaves all its nodes in their places, if nodes that get a text contained texts
    only. -/
theorem renderStable (ht : t.Sound) (hnew : ¬ t.Live copy) (config : Config) :
    RenderStable config (fun x => ¬ t.Live x) copy
      (Contained t (config.attributeName .bind) copy) where
  inside t' h := (Drafted.renderStable ht hnew config).inside t' h.drafted
  text t' id text t'' h hid hattribute hset := by
    have hs := h.drafted.beside.sound
    have hdrafted := (Drafted.renderStable ht hnew config).text t' id text t'' h.drafted hid
      hattribute hset
    have hl'' := hdrafted.beside.sound.tree.linked
    have hrefilled := HostTree.setText_refills hs hset
    have hidlive : t'.Live id := by
      obtain ⟨source, hsource⟩ := Option.isSome_iff_exists.1 hattribute
      rw [HostTree.attribute?] at hsource
      cases hn : t'.node? id with
      | none =>
        rw [hn] at hsource
        cases hsource
      | some n => exact ⟨n, hn⟩
    have hbelow : t'.Below copy id := (h.whole id hidlive).resolve_left hid
    have htexts := h.bare id hbelow hattribute
    refine ⟨hdrafted, fun y hy => ?_, hrefilled.bare hs.tree.linked hl'' hdrafted.live htexts h.bare⟩
    by_cases hlive : t'.Live y
    · exact (h.whole y hlive).imp_right fun hcopy => hrefilled.whole htexts copy y hcopy hy
    · refine .inr ?_
      obtain ⟨hmem, -, -⟩ := hrefilled.new y hy hlive
      have hid'' : t''.Live id := HostTree.live_of_mem_children hmem
      exact (hrefilled.whole htexts copy id hbelow hid'').tail hmem
  style t' id value t'' h hid hset := by
    have hs := h.drafted.beside.sound
    have hdrafted := (Drafted.renderStable ht hnew config).style t' id value t'' h.drafted hid hset
    have hkeeps := HostTree.KeepsPlaces.update hs hset (fun _ => rfl) (fun _ => rfl) fun _ => rfl
    have hmodify := HostTree.eq_modify_of_update hset
    have hbelow : ∀ y, t'.Below copy y → t'.Live y := fun y hy =>
      hy.live hs.tree.linked h.drafted.live
    refine ⟨hdrafted, fun y hy => ?_, h.bare.congr (fun y hy => hkeeps.children y (hbelow y hy))
      (fun y hy => hkeeps.kind y (hbelow y hy)) fun y hy => ?_⟩
    · rw [hmodify, HostTree.live_modify_iff] at hy
      exact (h.whole y hy).imp_right fun hcopy => hkeeps.below hs.tree.linked h.drafted.live hcopy
    · exact HostTree.attribute?_update hset (fun _ => rfl) y _

end Contained

end ReactiveTemplate
