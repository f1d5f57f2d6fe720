import ReactiveTemplate.Proofs.Engine.Ledger
import ReactiveTemplate.Proofs.Engine.Unmounting

/-!
# What unmounting leaves

Unmounting destroys the copies that lists show, and no other node. The placeholders and templates
that bindings have made stay behind without a parent, each with its whole subtree, so a document has
more nodes after every round of mounting and unmounting that made some.

* `Binding.leftovers`: the placeholder and the template of a binding.
* `Releases`: a step that destroys some subtrees and leaves the other private ones in their places.
* `Binding.cleanup_releases`: what undoing a binding destroys and leaves.
* `Engine.unmountAll_releases`: the same for all bindings, one after the other.
* `Engine.unmount_leaves`: what is there after unmounting, and how many nodes that are.
-/

namespace ReactiveTemplate

variable {t₀ t t' t'' : HostTree Reaction} {shows : NodeId → Prop} {bs bs' front back : List Binding}
  {b : Binding} {x o u template placeholder : NodeId} {gone gone' rest rendered : List NodeId}
  {clause : ForClause}

namespace Binding

/-- The placeholder of a binding and its template. -/
def leftovers (b : Binding) : List NodeId :=
  match b.directive with
  | .presence _ placeholder _ => [placeholder]
  | .repetition _ template placeholder _ => [template, placeholder]
  | _ => []

theorem own_eq (b : Binding) : b.own = b.leftovers ++ b.rendered := by
  obtain ⟨id, node, source, directive, reads⟩ := b
  cases directive <;> rfl

end Binding

/-! ## Steps that destroy subtrees -/

/-- A subtree stays private while it and the nodes that bindings have made stay as they are. -/
theorem Private.steady (h : Private t₀ shows bs t u) (hfixed : t.Fixed t' u)
    (hown : ∀ c ∈ bs', ∀ o ∈ c.own, t.Fixed t' o ∧ ∃ b ∈ bs, o ∈ b.own) :
    Private t₀ shows bs' t' u where
  live := hfixed.live h.live
  safe x hx hbelow := h.safe x hx (hfixed.below_iff.1 hbelow)
  own c hc o ho hne := by
    obtain ⟨hfixed', b, hb, hob⟩ := hown c hc o ho
    rw [hfixed.below_iff, hfixed'.below_iff]
    exact h.own b hb o hob hne

/-- A step that destroys some subtrees and no other node, and leaves the other private subtrees as
    they are; those without a parent get none. -/
structure Releases (t₀ : HostTree Reaction) (shows : NodeId → Prop) (bs : List Binding)
    (gone : List NodeId) (t t' : HostTree Reaction) : Prop where
  live : ∀ x, t'.Live x ↔ t.Live x ∧ ∀ o ∈ gone, ¬ t.Below o x
  fixed : ∀ u, Private t₀ shows bs t u → u ∉ gone → t.Fixed t' u
  loose : ∀ u, Private t₀ shows bs t u → u ∉ gone → t.parent? u = none → t'.parent? u = none

namespace Releases

theorem refl : Releases t₀ shows bs [] t t where
  live _ := by simp
  fixed u _ _ := .refl t u
  loose _ _ _ hnone := hnone

/-- What a step leaves is private among the bindings that are left. -/
theorem private_left (h : Releases t₀ shows bs gone t t') (hr : Restorable t₀ shows bs t)
    (ht : t₀.Tree) (hsub : ∀ c ∈ bs', ∀ o ∈ c.own, o ∉ gone ∧ ∃ b ∈ bs, o ∈ b.own)
    (hu : Private t₀ shows bs t u) (hkept : u ∉ gone) : Private t₀ shows bs' t' u := by
  refine hu.steady (h.fixed u hu hkept) fun c hc o ho => ?_
  obtain ⟨hout, b, hb, hob⟩ := hsub c hc o ho
  exact ⟨h.fixed o (hr.private_own ht hb hob) hout, b, hb, hob⟩

/-- Two steps one after the other, the second one for the bindings that are left. -/
theorem trans (h : Releases t₀ shows bs gone t t') (h' : Releases t₀ shows bs' gone' t' t'')
    (hr : Restorable t₀ shows bs t) (ht : t₀.Tree)
    (hsub : ∀ c ∈ bs', ∀ o ∈ c.own, o ∉ gone ∧ ∃ b ∈ bs, o ∈ b.own)
    (hgone : ∀ o ∈ gone', ∃ c ∈ bs', o ∈ c.own) :
    Releases t₀ shows bs (gone ++ gone') t t'' := by
  have hbelow : ∀ o ∈ gone', ∀ x, t'.Below o x ↔ t.Below o x := by
    intro o ho x
    obtain ⟨c, hc, hoc⟩ := hgone o ho
    obtain ⟨hout, b, hb, hob⟩ := hsub c hc o hoc
    exact (h.fixed o (hr.private_own ht hb hob) hout).below_iff
  constructor
  case live =>
    intro x
    rw [h'.live, h.live, and_assoc, List.forall_mem_append]
    refine and_congr_right fun _ => and_congr_right fun _ => forall₂_congr fun o ho => ?_
    rw [hbelow o ho]
  case fixed =>
    intro u hu hkept
    rw [List.mem_append, not_or] at hkept
    exact (h.fixed u hu hkept.1).trans
      (h'.fixed u (h.private_left hr ht hsub hu hkept.1) hkept.2)
  case loose =>
    intro u hu hkept hnone
    rw [List.mem_append, not_or] at hkept
    exact h'.loose u (h.private_left hr ht hsub hu hkept.1) hkept.2 (h.loose u hu hkept.1 hnone)

end Releases

namespace Restorable

/-- A node that a binding has made is destroyed. -/
theorem releases_removed (h : Restorable t₀ shows bs t) (ht : t₀.Tree) (hb : b ∈ bs) (ho : o ∈ b.own)
    (hdestroy : t.destroy o = .ok t') (hremoved : t.Removed t' o) :
    Releases t₀ shows bs [o] t t' where
  live x := by
    have hroot : o ≠ HostTree.root := h.not_safe_own hb ho ht.root_safe
    rw [h.sound.live_destroy (h.made b hb o ho).live hroot hdestroy, List.forall_mem_singleton]
  fixed u hu hkept := hu.fixed_removed h.sound hremoved hb ho
    fun heq => hkept (List.mem_singleton.2 heq.symm)
  loose u hu hkept hnone := by
    have hne : o ≠ u := fun heq => hkept (List.mem_singleton.2 heq.symm)
    rw [hremoved.parent u (hu.own b hb o ho hne).2, hnone]

/-- A node is put back into the place of what stood in for it. -/
theorem releases_swapped (h : Restorable t₀ shows bs t) (hb : b ∈ bs) (ho : o ∈ b.own)
    (hswap : t.Swapped t' o [b.node])
    (hfree : ∀ x, x ≠ b.node → t.parent? x = none → t'.parent? x = none) :
    Releases t₀ shows bs [] t t' where
  live x := by
    rw [and_iff_left (List.forall_mem_nil _)]
    exact ⟨fun hx => hx.of_content (hswap.content x).symm, fun hx => hx.of_content (hswap.content x)⟩
  fixed u hu _ := hu.fixed_swapped h.sound hswap (.inr ⟨b, hb, ho⟩)
  loose u hu _ hnone := by
    refine hfree u ?_ hnone
    rintro rfl
    exact hu.safe b.node (h.safe b hb) (HostTree.Below.refl t b.node)

/-- A change of a node of the first document that leaves it in its place. -/
theorem releases_modify (hx : t₀.Safe shows x) {change : Node Reaction → Node Reaction}
    (hkeeps : t.KeepsPlaces (t.modify x change)) : Releases t₀ shows bs [] t (t.modify x change) where
  live y := by
    rw [HostTree.live_modify_iff, and_iff_left (List.forall_mem_nil _)]
  fixed u hu _ := .modify (hu.safe x hx) change
  loose u hu _ hnone := by rw [hkeeps.parent u hu.live, hnone]

/-- Listeners of a node of the first document are taken away, as far as they are there. -/
theorem releases_listeners (ht : t₀.Tree) (hx : t₀.Safe shows x) (hooks : List Nat) :
    ∀ {t : HostTree Reaction}, Restorable t₀ shows bs t →
      let t' := (despiteFailures (fun t l => HostTree.removeListener t x l) hooks t).2
      Restorable t₀ shows bs t' ∧ Releases t₀ shows bs [] t t' := by
  induction hooks with
  | nil => exact fun h => ⟨h, .refl⟩
  | cons hook hooks ih =>
    intro t h
    dsimp only
    rw [despiteFailures]
    cases hremove : t.removeListener x hook with
    | error e => exact ih h
    | ok t₁ =>
      obtain ⟨change, rfl, hkeeps⟩ := HostTree.removeListener_modifies h.sound hremove
      obtain ⟨h', hreleases⟩ := ih (h.keepsPlaces ht hkeeps)
      refine ⟨h', (releases_modify hx hkeeps).trans hreleases h ht ?_ (List.forall_mem_nil _)⟩
      exact fun c hc o ho => ⟨List.not_mem_nil, c, hc, ho⟩

/-- With some of its copies gone, the other nodes that a binding has made are there still. -/
theorem own_left {copies : List NodeId} (h : Restorable t₀ shows
      (front ++ { b with directive := .repetition clause template placeholder rendered } :: back) t)
    (hsplit : copies ++ rest = rendered) :
    ∀ c ∈ front ++ { b with directive := .repetition clause template placeholder rest } :: back,
      ∀ o ∈ c.own, o ∉ copies ∧ ∃ b' ∈ front ++
        { b with directive := .repetition clause template placeholder rendered } :: back,
          o ∈ b'.own := by
  subst hsplit
  obtain ⟨-, hdistinct, hothers⟩ := nodup_own_insert.1 h.distinct
  intro c hc o ho
  rcases mem_insert.1 hc with rfl | hc
  · obtain ⟨hob, hkept⟩ := Binding.own_rest (b := b) copies hdistinct ho
    exact ⟨hkept, _, mem_insert.2 (.inl rfl), hob⟩
  · refine ⟨fun hcopy => hothers c hc o ho ?_, c, mem_insert.2 (.inr hc), ho⟩
    simp [Binding.own, hcopy]

/-- The copies of a list are destroyed. -/
theorem releases_copies (ht : t₀.Tree) {rendered : List NodeId} :
    ∀ {t : HostTree Reaction},
      Restorable t₀ shows
        (front ++ { b with directive := .repetition clause template placeholder rendered } :: back) t →
      Releases t₀ shows
        (front ++ { b with directive := .repetition clause template placeholder rendered } :: back)
        rendered t (despiteFailures HostTree.destroy rendered t).2 := by
  induction rendered with
  | nil => exact fun _ => .refl
  | cons copy rest ih =>
    intro t h
    let b' : Binding := { b with directive := .repetition clause template placeholder (copy :: rest) }
    let d : Binding := { b with directive := .repetition clause template placeholder rest }
    have hb' : b' ∈ front ++ b' :: back := mem_insert.2 (.inl rfl)
    have hcopy : copy ∈ b'.own := by simp [b', Binding.own]
    obtain ⟨t₁, hdestroy, h₁, -, hremoved⟩ := h.removed ht rfl (d := d) rfl rfl
    have hfirst := h.releases_removed ht hb' hcopy hdestroy hremoved
    have hleft := h.own_left (show [copy] ++ rest = copy :: rest from rfl)
    rw [despiteFailures, hdestroy]
    refine hfirst.trans (ih h₁) h ht hleft fun o ho => ?_
    exact ⟨d, mem_insert.2 (.inl rfl), by simp [d, Binding.own, ho]⟩

end Restorable

/-! ## Undoing bindings -/

/-- What stood in for the node of a binding loses its place, if it had one. -/
theorem Restorable.releases_standIn (h : Restorable t₀ shows (b :: bs) t) (ht : t₀.Tree)
    (hout : b.standIn? = some [placeholder]) :
    Releases t₀ shows (b :: bs) [] t (t.replace placeholder b.node).2 ∧
      (t.replace placeholder b.node).2.parent? placeholder = none := by
  have hfirst : Restorable t₀ shows ([] ++ b :: bs) t := h
  obtain ⟨t', hreplace, -, hswap, hfree, hloose⟩ | ⟨hfree, e, hreplace⟩ := hfirst.comeBack ht hout
  · rw [hreplace]
    exact ⟨h.releases_swapped List.mem_cons_self
      (Binding.mem_own_of_standIn? hout List.mem_cons_self) hswap hloose, hfree⟩
  · rw [hreplace]
    exact ⟨.refl, hfree⟩

/-- Undoing a binding destroys its copies, and leaves its placeholder and its template without a
    parent. -/
theorem Binding.cleanup_releases (ht : t₀.Tree) (h : Restorable t₀ shows (b :: bs) t) :
    Restorable t₀ shows bs (b.cleanup t).2 ∧
      Releases t₀ shows (b :: bs) b.rendered t (b.cleanup t).2 ∧
      ∀ o ∈ b.leftovers, (b.cleanup t).2.parent? o = none := by
  have hfirst : Restorable t₀ shows ([] ++ b :: bs) t := h
  have hsafe := h.safe b List.mem_cons_self
  obtain ⟨id, node, source, directive, reads⟩ := b
  cases directive with
  | text expression shown => exact ⟨hfirst.drop (.inl rfl), .refl, List.forall_mem_nil _⟩
  | visibility expression => exact ⟨hfirst.drop (.inl rfl), .refl, List.forall_mem_nil _⟩
  | presence expression placeholder present =>
    cases present with
    | true => exact ⟨hfirst.drop (.inl rfl), .refl, h.aside _ List.mem_cons_self⟩
    | false =>
      obtain ⟨hdone, -⟩ := h.vacate ht rfl
      obtain ⟨hreleases, hfree⟩ := h.releases_standIn ht rfl
      have hleft : ∀ o ∈ [placeholder], (t.replace placeholder node).2.parent? o = none := fun o ho =>
        List.mem_singleton.1 ho ▸ hfree
      rw [cleanup]
      dsimp only at hdone hreleases hleft ⊢
      generalize t.replace placeholder node = replaced at hdone hreleases hleft
      obtain ⟨_ | _, t'⟩ := replaced <;> exact ⟨hdone, hreleases, hleft⟩
  | repetition clause template placeholder rendered =>
    let b : Binding := ⟨id, node, source, .repetition clause template placeholder rendered, reads⟩
    -- The copies go first, so the node comes back to a binding that has none.
    let d : Binding := ⟨id, node, source, .repetition clause template placeholder [], reads⟩
    obtain ⟨t₁, hremove, h₁, -⟩ := Page.removeAll_restorable (b := b) ht hfirst
    have hcopies : Releases t₀ shows (b :: bs) rendered t _ :=
      Restorable.releases_copies (b := b) ht hfirst
    rw [hremove] at hcopies
    have hrest : Restorable t₀ shows (d :: bs) t₁ := h₁
    have hown : ∀ c ∈ d :: bs, ∀ o ∈ c.own, o ∉ rendered ∧ ∃ c' ∈ b :: bs, o ∈ c'.own :=
      hfirst.own_left (b := b) (List.append_nil rendered)
    obtain ⟨hdone, -⟩ := hrest.vacate ht rfl
    obtain ⟨hback, hfree⟩ := hrest.releases_standIn ht rfl
    have hreleases := hcopies.trans hback h ht hown (List.forall_mem_nil _)
    rw [List.append_nil] at hreleases
    have hleft : ∀ o ∈ [template, placeholder], (t₁.replace placeholder node).2.parent? o = none := by
      intro o ho
      rcases List.mem_pair.1 ho with rfl | rfl
      · have hprivate : Private t₀ shows (d :: bs) t₁ o :=
          hrest.private_own ht List.mem_cons_self List.mem_cons_self
        exact hback.loose o hprivate List.not_mem_nil
          (hrest.aside d List.mem_cons_self o List.mem_cons_self)
      · exact hfree
    rw [cleanup]
    simp only [hremove]
    dsimp only [d] at hdone hreleases
    generalize t₁.replace placeholder node = replaced at hdone hreleases hleft
    obtain ⟨_ | _, t'⟩ := replaced <;> exact ⟨hdone, hreleases, hleft⟩
  | model expression listener =>
    obtain ⟨hdone, hreleases⟩ := Restorable.releases_listeners ht hsafe [listener] h
    have hdone' : Restorable t₀ shows ([] ++ _ :: bs) _ := hdone
    exact ⟨hdone'.drop (.inl rfl), hreleases, List.forall_mem_nil _⟩
  | events listeners =>
    obtain ⟨hdone, hreleases⟩ := Restorable.releases_listeners ht hsafe listeners h
    have hdone' : Restorable t₀ shows ([] ++ _ :: bs) _ := hdone
    exact ⟨hdone'.drop (.inl rfl), hreleases, List.forall_mem_nil _⟩

/-! ## Undoing all of them -/

/-- Of the nodes that bindings have made, none is listed twice. -/
theorem Restorable.nodup_part (h : Restorable t₀ shows bs t) {part : Binding → List NodeId}
    (hpart : ∀ b, (part b).Sublist b.own) : (bs.flatMap part).Nodup :=
  h.distinct.sublist (List.Sublist.flatMap_right bs fun b _ => hpart b)

/-- The nodes that bindings have made are private. -/
theorem Restorable.private_part (h : Restorable t₀ shows bs t) (ht : t₀.Tree)
    {part : Binding → List NodeId} (hpart : ∀ b, (part b).Sublist b.own) (ho : o ∈ bs.flatMap part) :
    Private t₀ shows bs t o ∧ ∃ b ∈ bs, o ∈ b.own := by
  obtain ⟨b, hb, ho⟩ := List.mem_flatMap.1 ho
  have hown := (hpart b).subset ho
  exact ⟨h.private_own ht hb hown, b, hb, hown⟩

theorem Binding.leftovers_sublist (b : Binding) : b.leftovers.Sublist b.own := by
  rw [own_eq]
  exact List.sublist_append_left _ _

theorem Binding.rendered_sublist (b : Binding) : b.rendered.Sublist b.own := by
  rw [own_eq]
  exact List.sublist_append_right _ _

/-- What is left of the nodes that bindings have made is no copy. -/
theorem Restorable.not_mem_rendered (h : Restorable t₀ shows bs t)
    (ho : o ∈ bs.flatMap Binding.leftovers) : o ∉ bs.flatMap Binding.rendered := by
  intro hcopy
  obtain ⟨b, hb, hob⟩ := List.mem_flatMap.1 ho
  obtain ⟨c, hc, hoc⟩ := List.mem_flatMap.1 hcopy
  have hbc : b = c := own_unique h.distinct hb hc (b.leftovers_sublist.subset hob)
    (c.rendered_sublist.subset hoc)
  subst hbc
  have hown : b.own.Nodup := (List.nodup_flatMap.1 h.distinct).1 b hb
  rw [b.own_eq] at hown
  exact (List.nodup_append.1 hown).2.2 o hob o hoc rfl

/-- A step that destroys copies makes as many nodes fewer as these have. -/
theorem Releases.liveCount (h : Releases t₀ shows bs (bs.flatMap Binding.rendered) t t')
    (hr : Restorable t₀ shows bs t) (ht : t₀.Tree) (hs' : t'.Sound) :
    t.liveCount = t'.liveCount + ((bs.flatMap Binding.rendered).map t.weight).sum := by
  have hcopy : ∀ o ∈ bs.flatMap Binding.rendered, Private t₀ shows bs t o ∧ ∃ b ∈ bs, o ∈ b.own :=
    fun o ho => hr.private_part ht Binding.rendered_sublist ho
  refine hs'.liveCount_splits hr.sound (hr.nodup_part Binding.rendered_sublist)
    (fun c hc => (hcopy c hc).1.live) (fun c hc d hd hne => ?_) (fun y => ?_)
    fun c hc y hbelow hy => ?_
  · obtain ⟨b, hb, hdb⟩ := (hcopy d hd).2
    exact ((hcopy c hc).1.own b hb d hdb hne).1
  · rw [h.live]
    constructor
    · intro hy
      by_cases hex : ∃ c ∈ bs.flatMap Binding.rendered, t.Below c y
      · exact .inr hex
      · exact .inl ⟨hy, fun c hc hbelow => hex ⟨c, hc, hbelow⟩⟩
    · rintro (⟨hy, -⟩ | ⟨c, hc, hbelow⟩)
      · exact hy
      · exact hbelow.live hr.sound.tree.linked (hcopy c hc).1.live
  · exact ((h.live y).1 hy).2 c hc hbelow

namespace Engine

variable {e : Engine}

/-- Undoing all bindings destroys their copies, and leaves their placeholders and templates without a
    parent. -/
theorem unmountAll_releases (ht : t₀.Tree) (bs : List Binding) :
    ∀ {e : Engine}, Restorable t₀ shows bs e.page.host →
      let e' := bs.foldl unmountBinding e
      Restorable t₀ shows [] e'.page.host ∧
        Releases t₀ shows bs (bs.flatMap Binding.rendered) e.page.host e'.page.host ∧
        ∀ o ∈ bs.flatMap Binding.leftovers, e'.page.host.parent? o = none := by
  induction bs with
  | nil => exact fun h => ⟨h, .refl, List.forall_mem_nil _⟩
  | cons b bs ih =>
    intro e h
    have hfirst : Restorable t₀ shows ([] ++ b :: bs) e.page.host := h
    obtain ⟨hrest, hreleases, hloose⟩ := Binding.cleanup_releases ht h
    rw [← unmountBinding_apart] at hrest hreleases hloose
    obtain ⟨hdone, hreleases', hloose'⟩ := ih hrest
    have hothers : ∀ c ∈ bs, ∀ o ∈ c.own, o ∉ b.own := (nodup_own_insert.1 hfirst.distinct).2.2
    have hsub : ∀ c ∈ bs, ∀ o ∈ c.own, o ∉ b.rendered ∧ ∃ c' ∈ b :: bs, o ∈ c'.own := fun c hc o ho =>
      ⟨fun hcopy => hothers c hc o ho (b.rendered_sublist.subset hcopy), c,
        List.mem_cons_of_mem _ hc, ho⟩
    have hgone : ∀ o ∈ bs.flatMap Binding.rendered, ∃ c ∈ bs, o ∈ c.own := fun o ho =>
      (hrest.private_part ht Binding.rendered_sublist ho).2
    refine ⟨hdone, hreleases.trans hreleases' h ht hsub hgone, fun o ho => ?_⟩
    have hcopy := h.not_mem_rendered ho
    obtain ⟨hprivate, -⟩ := h.private_part ht Binding.leftovers_sublist ho
    rw [List.flatMap_cons, List.mem_append, not_or] at hcopy
    rcases List.mem_append.1 ho with ho | ho
    · have hleft := hreleases.private_left h ht hsub hprivate hcopy.1
      exact hreleases'.loose o hleft hcopy.2 (hloose o ho)
    · exact hloose' o ho

/-- Unmounting destroys the copies that lists show, with what is below them, and no other node: the
    placeholders and templates of all bindings are there afterwards, each without a parent and with
    its subtree as it was. So the document has at least these and the safe nodes that it had before
    mounting, and all this holds again of any further round. -/
theorem unmount_leaves {target : MountTarget} (h : e.page.host.Sound) (hfresh : e.bindings = [])
    (hsafe : ∀ b ∈ (e.mount target).bindings,
      e.page.host.Safe (e.mount target).ShowsText b.node) (moves : List Move) :
    let e₁ := (e.mount target).run moves
    let copies := e₁.bindings.flatMap Binding.rendered
    let leftovers := e₁.bindings.flatMap Binding.leftovers
    (∀ x, e₁.unmount.page.host.Live x ↔
      e₁.page.host.Live x ∧ ∀ o ∈ copies, ¬ e₁.page.host.Below o x) ∧
    (∀ o ∈ leftovers, e₁.unmount.page.host.Live o ∧ e₁.unmount.page.host.parent? o = none ∧
      e₁.page.host.Fixed e₁.unmount.page.host o) ∧
    e₁.page.host.liveCount =
      e₁.unmount.page.host.liveCount + (copies.map e₁.page.host.weight).sum ∧
    (∀ kept : List NodeId, kept.Nodup →
      (∀ x ∈ kept, e.page.host.Safe (e.mount target).ShowsText x) →
      kept.length + (leftovers.map e₁.unmount.page.host.weight).sum ≤
        e₁.unmount.page.host.liveCount) ∧
    e₁.unmount.page.host.Sound ∧ e₁.unmount.bindings = [] := by
  intro e₁ copies leftovers
  have ht := h.tree
  have hmounted := mount_undoable h hfresh target hsafe fun b hb hkind => ⟨b, hb, hkind, rfl⟩
  have hrun := ((upheld_undoable ht).run moves (n := 0) hmounted).restorable
  obtain ⟨hdone, hreleases, hloose⟩ := unmountAll_releases ht e₁.bindings hrun
  have hmade : ∀ o ∈ leftovers,
      Private e.page.host (e.mount target).ShowsText e₁.bindings e₁.page.host o ∧
        ∃ b ∈ e₁.bindings, o ∈ b.own := fun o ho => hrun.private_part ht Binding.leftovers_sublist ho
  have hfixed : ∀ o ∈ leftovers, e₁.page.host.Fixed e₁.unmount.page.host o := fun o ho =>
    hreleases.fixed o (hmade o ho).1 (hrun.not_mem_rendered ho)
  have hlive : ∀ o ∈ leftovers, e₁.unmount.page.host.Live o := fun o ho =>
    (hfixed o ho).live (hmade o ho).1.live
  refine ⟨hreleases.live, fun o ho => ⟨hlive o ho, hloose o ho, hfixed o ho⟩,
    hreleases.liveCount hrun ht hdone.sound, fun kept hkept hall => ?_, hdone.sound, rfl⟩
  refine hdone.sound.le_liveCount hkept (hrun.nodup_part Binding.leftovers_sublist) hlive
    (fun o ho o' ho' hne hbelow => ?_) (fun x hx => hdone.stays x (hall x hx))
    fun o ho x hx hbelow => ?_
  · obtain ⟨-, b, hb, hob⟩ := hmade o' ho'
    exact ((hmade o ho).1.own b hb o' hob hne).1 ((hfixed o ho).below_iff.1 hbelow)
  · exact (hmade o ho).1.safe x (hall x hx) ((hfixed o ho).below_iff.1 hbelow)

/-- An element that comes and goes, and a list. -/
def guestPage : HostTree Reaction :=
  zonePage [("p", "vx-if", "open"), ("li", "vx-for", "name in names")]

/-- The engine of that page, with one name. -/
def guestEngine : Engine :=
  create guestPage (.object [("open", .bool true), ("names", .array [.text "Ann"])]) .standard

/-- The page has four nodes; unmounting destroys the copy and leaves the other three nodes that were
    made, and the next round leaves three more. -/
theorem unmount_leaves_guestPage :
    guestEngine.page.host.Sound ∧ guestEngine.bindings = [] ∧
      (∀ b ∈ (guestEngine.mount .zones).bindings,
        guestEngine.page.host.Safe (guestEngine.mount .zones).ShowsText b.node) ∧
      guestEngine.page.host.liveCount = 4 ∧
      (∀ o ∈ [⟨4, 0⟩, ⟨5, 0⟩, ⟨6, 0⟩], (guestEngine.mount .zones).unmount.page.host.Live o ∧
        (guestEngine.mount .zones).unmount.page.host.parent? o = none) ∧
      ¬ (guestEngine.mount .zones).unmount.page.host.Live ⟨7, 0⟩ ∧
      (guestEngine.mount .zones).unmount.page.host.liveCount = 7 ∧
      ((guestEngine.mount .zones).unmount.mount .zones).unmount.page.host.liveCount = 10 := by
  have hsound : guestEngine.page.host.Sound := sound_zonePage _
  have hfresh : guestEngine.bindings = [] := List.isEmpty_iff.1 (by decide +kernel)
  have hnodes : (guestEngine.mount .zones).bindings.map Binding.node = [⟨2, 0⟩, ⟨3, 0⟩] := by
    decide +kernel
  have hids : ∀ x ∈ [⟨2, 0⟩, ⟨3, 0⟩], x ∈ guestEngine.page.host.ids := by decide +kernel
  have hsafe : ∀ b ∈ (guestEngine.mount .zones).bindings,
      guestEngine.page.host.Safe (guestEngine.mount .zones).ShowsText b.node := by
    intro b hb
    refine safe_of_textless (by decide +kernel) (HostTree.mem_ids_iff.1 (hids _ ?_))
    rw [← hnodes]
    exact List.mem_map_of_mem hb
  have hcopies : (guestEngine.mount .zones).bindings.flatMap Binding.rendered = [⟨7, 0⟩] := by
    decide +kernel
  have hleftovers : (guestEngine.mount .zones).bindings.flatMap Binding.leftovers =
      [⟨4, 0⟩, ⟨5, 0⟩, ⟨6, 0⟩] := by decide +kernel
  obtain ⟨hgone, hleft, hcount, -⟩ := unmount_leaves hsound hfresh hsafe []
  have hstart : (guestEngine.mount .zones).run [] = guestEngine.mount .zones := rfl
  rw [hstart] at hgone hleft hcount
  rw [hcopies] at hgone hcount
  rw [hleftovers] at hleft
  have hmounted : (guestEngine.mount .zones).page.host.liveCount = 8 := by decide +kernel
  have hcopy : (guestEngine.mount .zones).page.host.weight ⟨7, 0⟩ = 1 := by decide +kernel
  refine ⟨hsound, hfresh, hsafe, by decide +kernel, fun o ho => ?_, fun hlive => ?_, ?_,
    by decide +kernel⟩
  · exact ⟨(hleft o ho).1, (hleft o ho).2.1⟩
  · exact ((hgone _).1 hlive).2 _ (List.mem_singleton_self _) (HostTree.Below.refl _ _)
  · rw [hmounted, List.map_singleton, hcopy, List.sum_singleton] at hcount
    omega

end Engine

end ReactiveTemplate
