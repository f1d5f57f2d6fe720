import ReactiveTemplate.Proofs.Engine.Generations
import ReactiveTemplate.Proofs.Engine.Homes
import ReactiveTemplate.Proofs.Engine.Recovery

/-!
# Keeping nodes at home

An update of a binding keeps all nodes at home, whatever becomes of the element of the binding, and
leaves alone what is apart from the binding. The number of releases on the way is bounded by what the
binding shows.

* `Page.renderItems_settled`: a copy for each item.
* `Page.update_settled`: an update of any binding.
* `Binding.cleanup_homed`: undoing a binding.
-/

namespace ReactiveTemplate

variable {t₀ t t' : HostTree Reaction} {P : NodeId → Prop} {bs front back : List Binding}
  {b : Binding} {x p anchor copy node template placeholder : NodeId} {rendered : List NodeId}
  {clause : ForClause} {n w : Nat}

/-! ## Single places -/

namespace Page

variable {page : Page} {expression : CompiledExpression}

theorem updateText_settled (h : Settled t₀ bs n page.host) (hguard : page.host.Guarded P)
    (hnode : ¬ P node) (hfew : n + 1 < UInt32.size) (shown : Option String) :
    Settled t₀ bs (n + 1) (page.updateText node expression shown).2.2.host ∧
      HostTree.Beside P page.host (page.updateText node expression shown).2.2.host := by
  have hs := h.homed.sound
  obtain ⟨-, hsame | ⟨text, hset⟩⟩ := page.updateText_cases node expression shown
  · rw [hsame]
    exact ⟨h.mono (Nat.le_succ n), hs, fun _ _ => rfl⟩
  · exact ⟨h.setText hfew hset, .setText hs hguard hnode hset⟩

/-- The document is as it was, or an element looks different. -/
theorem settled_of_repainted (h : Settled t₀ bs n t) (hnode : ¬ P node) (hfew : n < UInt32.size)
    (hcases : t' = t ∨ t.Repainted t' node) : Settled t₀ bs n t' ∧ HostTree.Beside P t t' := by
  rcases hcases with rfl | hrepainted
  · exact ⟨h, h.homed.sound, fun _ _ => rfl⟩
  · exact ⟨h.repainted hfew hrepainted, hrepainted.beside h.homed.sound hnode⟩

/-- An element goes out of its place or comes back, or all stays as it is. -/
theorem updatePresence_settled (ht : t₀.Tree) {present : Bool}
    (h : Settled t₀
      (front ++ { b with directive := .presence expression placeholder present } :: back) n page.host)
    (hguard : page.host.Guarded P)
    (hapart : ApartFrom t₀ P { b with directive := .presence expression placeholder present }) :
    let r := page.updatePresence b.node expression placeholder present
    Settled t₀ (front ++ { b with directive := .presence expression placeholder r.2.1 } :: back) n
        r.2.2.host ∧
      HostTree.Beside P page.host r.2.2.host := by
  have hhost := page.evaluate_host expression page.state.scope
  dsimp only
  rw [updatePresence]
  generalize page.evaluate expression page.state.scope = evaluated at hhost
  obtain ⟨value, page₁⟩ := evaluated
  dsimp only at hhost ⊢
  rw [← hhost] at h hguard ⊢
  let b' : Binding := { b with directive := .presence expression placeholder present }
  have hb : b' ∈ front ++ b' :: back := mem_insert.2 (.inl rfl)
  have hown : placeholder ∈ b'.own := List.mem_singleton_self _
  have hne : b.node ≠ placeholder := fun heq =>
    h.homed.new b' hb placeholder hown (heq ▸ h.homed.nodes b' hb)
  split
  · exact ⟨h, h.homed.sound, fun _ _ => rfl⟩
  · -- Which of the two goes into the place of the other does not matter.
    have hreplaced : ∀ pair, pair = (placeholder, b.node) ∨ pair = (b.node, placeholder) →
        Settled t₀ (front ++ b' :: back) n (page₁.host.replace pair.1 pair.2).2 ∧
          HostTree.Beside P page₁.host (page₁.host.replace pair.1 pair.2).2 := by
      rintro _ (rfl | rfl)
      · exact h.replace ht hb (.inr hown) (.inl rfl) hne.symm hguard hapart
      · exact h.replace ht hb (.inl rfl) (.inr hown) hne hguard hapart
    have hpair := hreplaced (if value.isTruthy then (placeholder, b.node) else (b.node, placeholder))
      (by split <;> simp)
    generalize (if value.isTruthy = true then (placeholder, b.node) else (b.node, placeholder)) = pair
      at hpair ⊢
    obtain ⟨old, new⟩ := pair
    dsimp only [editPartly] at hpair ⊢
    generalize page₁.host.replace old new = replaced at hpair
    obtain ⟨_ | _, t'⟩ := replaced
    · exact hpair
    · exact ⟨hpair.1.relabel rfl rfl, hpair.2⟩

/-! ## Lists -/

theorem discard_aged (page : Page) (node : NodeId) :
    page.host.AgedBy 1 (page.discard node).host :=
  edit_keeps (Q := page.host.AgedBy 1) ((HostTree.AgedBy.refl _).mono (Nat.zero_le 1)) fun t' hdestroy =>
    ((HostTree.emptied_destroy hdestroy).age (HostTree.touched_refl t').filled).agedBy_one

/-- What a new copy adds behind a node: nothing else moves, and only the parent notices. -/
structure Added (t : HostTree Reaction) (copy p : NodeId) (t' : HostTree Reaction) : Prop where
  sound : t'.Sound
  live : t'.Live copy
  home : t'.parent? copy = some p
  parent : ∀ x, t.Live x → t'.parent? x = t.parent? x
  same : ∀ x, t.Live x → x ≠ p → t'.node? x = t.node? x

/-- A new copy is put behind a node that was there before, or it stays on its own. -/
theorem placeCopy_added (hs : t.Sound) (hsketch : Sketched t copy page.host) (hnew : ¬ t.Live copy)
    (hanchor : ∀ t', page.host.AgedBy (page.host.weight copy) t' → t'.Live anchor → t.Live anchor)
    (item : String) (value : Value) :
    (∃ p page', page.placeCopy anchor copy item value = (.ok (), page') ∧
      t.parent? anchor = some p ∧ Added t copy p page'.host) ∨
    ∃ e page', page.placeCopy anchor copy item value = (.error e, page') ∧
      Sketched t copy page'.host := by
  have hrendered := (renderCopy_keeps (Sketched.renderStable hs hnew page.config) hsketch item value).2
  have hold := hanchor _ (renderCopy_aged page copy item value)
  rw [placeCopy]
  generalize page.renderCopy copy item value = outcome at hrendered hold
  obtain ⟨_ | _, page₁⟩ := outcome
  · exact .inr ⟨_, _, rfl, hrendered⟩
  dsimp only at hrendered hold ⊢
  have hs₁ := hrendered.beside.sound
  cases hp : page₁.host.parent? anchor with
  | none =>
    refine .inr ⟨.detached (page₁.host.describe anchor), page₁, ?_, hrendered⟩
    rw [HostTree.insertAfter, hp]
    rfl
  | some p =>
    have hlive := hold (HostTree.live_of_parent? hp)
    have hguard := hrendered.guarded hs
    have hroot : copy ≠ HostTree.root := fun heq => hnew (heq ▸ hs.tree.linked.rooted)
    obtain ⟨t', hinsert, hswap, hparent⟩ := HostTree.insertAfter_swaps hs₁ hp hrendered.live
      hrendered.loose hroot fun hbelow =>
        hnew (hguard.of_below hs₁.tree.linked hbelow (hguard.above _ _ hlive hp))
    have hne : ∀ x, t.Live x → x ≠ copy := by
      rintro x hx rfl
      exact hnew hx
    have hup : ∀ x, t.Live x → t'.parent? x = page₁.host.parent? x := fun x hx => by
      rw [hparent, if_neg (hne x hx)]
    refine .inl ⟨p, { page₁ with host := t' }, ?_, ?_, hswap.sound,
      hrendered.live.of_content (hswap.content copy), by rw [hparent, if_pos rfl],
      fun x hx => (hup x hx).trans (HostTree.parent?_eq_of_node?_eq (hrendered.beside.same x hx)),
      fun x hx hxp => ?_⟩
    · rw [hinsert]
      rfl
    · rw [← HostTree.parent?_eq_of_node?_eq (hrendered.beside.same anchor hlive), hp]
    · rw [← hrendered.beside.same x hx]
      refine HostTree.node?_eq_of_content_eq (hswap.content x) (hup x hx) ?_
      rw [hswap.children, hs₁.tree.linked.flatMap_swap_of_ne hp hxp]

/-- The node above a new copy is no part of the template, which stays as it is. -/
theorem Added.fixed (h : Added t copy p t') (hs : t.Sound) (htemplate : t.Live template)
    (hout : ¬ t.Below template p) : t.Fixed t' template := by
  intro y hy
  have hsame := h.same y (hy.live hs.tree.linked htemplate) (by
    rintro rfl
    exact hout hy)
  exact ⟨HostTree.content_eq_of_node?_eq hsame, HostTree.children_eq_of_node?_eq hsame⟩

/-- A copy that was put behind the others becomes one of them. -/
theorem Added.settled (hadded : Added t copy p t') (ht : t₀.Tree)
    (h : Settled t₀
      (front ++ { b with directive := .repetition clause template placeholder rendered } :: back) n t)
    (hguard : t.Guarded P) (hparent : t₀.parent? b.node = some p) (hp : ¬ P p)
    (hcopy : ¬ t.Live copy) (haged : t.AgedBy w t') (hfew : n + w < UInt32.size) :
    Settled t₀ (front ++ { b with
        directive := .repetition clause template placeholder (rendered ++ [copy]) } :: back) (n + w)
        t' ∧
      HostTree.Beside P t t' ∧ (t.Live template → t'.weight template = t.weight template) := by
  let b' : Binding := { b with directive := .repetition clause template placeholder rendered }
  have hb' : b' ∈ front ++ b' :: back := mem_insert.2 (.inl rfl)
  have hnew : ¬ Named t₀ (front ++ b' :: back) copy := fun hnamed =>
    hcopy (h.names.live_before haged hfew hnamed hadded.live)
  refine ⟨?_, ⟨hadded.sound, fun y hy => hadded.same y (hguard.live y hy) ?_⟩, fun htemplate => ?_⟩
  · have hstep : Settled t₀ (front ++ b' :: back) (n + w) t' :=
      h.step hadded.sound haged hfew fun x q hx hq => .inl (hadded.parent x hx ▸ hq)
    refine hstep.exchange rfl ?_ fun o ho => ?_
    · have hnodup := (nodup_own_insert.1 h.homed.distinct).2.1
      refine List.nodup_append.2 ⟨hnodup, List.nodup_singleton _, fun o ho o' ho' heq => ?_⟩
      rw [List.mem_singleton.1 ho'] at heq
      exact hnew (.inr ⟨b', hb', heq ▸ ho⟩)
    · have ho' : o ∈ b'.own ++ [copy] := ho
      rcases List.mem_append.1 ho' with ho | ho
      · exact .inl ho
      · rw [List.mem_singleton.1 ho]
        refine .inr ⟨hadded.live, hnew, fun q hq => ?_⟩
        rw [hadded.home, Option.some.injEq] at hq
        exact hq ▸ hparent
  · rintro rfl
    exact hp hy
  · have hout := h.homed.not_below_own ht hb' List.mem_cons_self (ht.live_parent hparent)
    exact (hadded.fixed h.homed.sound htemplate hout).weight_eq h.homed.sound hadded.sound htemplate

/-- Copies for some values, one behind the other; when one of them fails, those before it are kept. -/
theorem renderItems_settled (ht : t₀.Tree) (hhome : ∀ p, t₀.parent? b.node = some p → ¬ P p)
    (item : String) (earlier : Option HostError) (values : List Value) :
    ∀ {anchor : NodeId} {rendered : List NodeId} {page : Page} {n : Nat},
      Settled t₀
        (front ++ { b with directive := .repetition clause template placeholder rendered } :: back) n
        page.host →
      page.host.Guarded P → anchor ∈ placeholder :: rendered →
      (page.host.Live template → page.host.weight template ≤ w) →
      n + (values.length * w + 1) < UInt32.size →
      let r := renderItems item template earlier values anchor rendered page
      Settled t₀
          (front ++ { b with directive := .repetition clause template placeholder r.2.1 } :: back)
          (n + (values.length * w + 1)) r.2.2.host ∧
        HostTree.Beside P page.host r.2.2.host := by
  induction values with
  | nil =>
    exact fun h _ _ _ _ => ⟨h.mono (Nat.le_add_right _ _), h.homed.sound, fun _ _ => rfl⟩
  | cons value values ih =>
    intro anchor rendered page n h hguard hanchor hweight hfew
    have hs := h.homed.sound
    rw [List.length_cons, Nat.add_mul, Nat.one_mul] at hfew ⊢
    let b' : Binding := { b with directive := .repetition clause template placeholder rendered }
    have hb' : b' ∈ front ++ b' :: back := mem_insert.2 (.inl rfl)
    have hown : anchor ∈ b'.own := List.mem_cons_of_mem _ hanchor
    dsimp only
    rw [renderItems, editPartly]
    cases htemplate : page.host.node? template with
    | none =>
      have hclone : page.host.cloneNode template = (.error (.unknownNode template.index), page.host) := by
        rw [HostTree.cloneNode, HostTree.cloneWithin, HostTree.get_dead htemplate]
      rw [hclone]
      exact ⟨h.mono (Nat.le_add_right _ _), hs, fun _ _ => rfl⟩
    | some m =>
      have hlive : page.host.Live template := ⟨m, htemplate⟩
      obtain ⟨copy, t₁, hclone, hcloned⟩ := HostTree.cloneNode_cloned hs hlive
      have hcopied : t₁.weight copy ≤ w :=
        (HostTree.length_preorder_cloneNode hs hclone).trans_le (hweight hlive)
      have hfilled : page.host.AgedBy 0 t₁ := by
        have hfilled := HostTree.filled_cloneWithin (page.host.slots.size + 1) page.host template
        rw [← HostTree.cloneNode, hclone] at hfilled
        exact hfilled.agedBy_zero
      let page₁ : Page := { page with host := t₁ }
      have hsketch : Sketched page.host copy page₁.host :=
        ⟨hcloned.beside, hcloned.live, hcloned.loose⟩
      have hwithin : ∀ t', page₁.host.AgedBy (page₁.host.weight copy) t' → page.host.AgedBy w t' :=
        fun t' haged => (hfilled.trans haged).mono ((Nat.zero_add _).trans_le hcopied)
      have haged := hwithin _ (placeCopy_aged page₁ anchor copy item value)
      have hold : ∀ t', page₁.host.AgedBy (page₁.host.weight copy) t' → t'.Live anchor →
          page.host.Live anchor := fun t' haged' =>
        h.names.live_before (hwithin t' haged') (by omega) (.inr ⟨b', hb', hown⟩)
      rw [hclone]
      dsimp only
      obtain ⟨p, page₂, hplace, hp, hadded⟩ | ⟨e, page₂, hplace, hsketch₂⟩ :=
        placeCopy_added hs hsketch hcloned.new hold item value
      · rw [hplace] at haged ⊢
        have hparent := h.homed.ownAbove b' hb' anchor hown p hp
        obtain ⟨h₂, hbeside, hsame⟩ := hadded.settled ht h hguard hparent (hhome p hparent) hcloned.new
          haged (by omega)
        obtain ⟨h₃, hbeside'⟩ := ih h₂ (hguard.beside hbeside)
          (List.mem_cons_of_mem _ (List.mem_append_right _ (List.mem_singleton_self copy)))
          (fun _ => (hsame hlive).trans_le (hweight hlive)) (by omega)
        exact ⟨h₃.mono (by omega), hbeside.trans hbeside'⟩
      · rw [hplace] at haged ⊢
        have hgiven := discard_beside hs hsketch₂ hcloned.new
        have haged' := haged.trans (discard_aged page₂ copy)
        refine ⟨(h.step hgiven.sound haged' (by omega) fun x q hx hq => .inl ?_).mono (by omega),
          hgiven.mono hguard.live⟩
        rwa [HostTree.parent?_eq_of_node?_eq (hgiven.same x hx)] at hq

/-- The old copies are cleared away, and their names are forgotten. -/
theorem destroyAll_settled (ht : t₀.Tree)
    (h : Settled t₀
      (front ++ { b with directive := .repetition clause template placeholder rendered } :: back) n t)
    (hguard : t.Guarded P)
    (hapart : ApartFrom t₀ P
      { b with directive := .repetition clause template placeholder rendered })
    (hfew : n + 1 < UInt32.size) :
    let t' := (despiteFailures HostTree.destroy rendered t).2
    Settled t₀
        (front ++ { b with directive := .repetition clause template placeholder [] } :: back) (n + 1)
        t' ∧
      HostTree.Beside P t t' ∧ (t'.Live template → t'.weight template = t.weight template) := by
  have hs := h.homed.sound
  have hl := hs.tree.linked
  have hcleared := HostTree.destroyAll_clears rendered hs
  have haged := ((HostTree.emptied_destroyAll rendered t).age
    (HostTree.touched_refl _).filled).agedBy_one
  let b' : Binding := { b with directive := .repetition clause template placeholder rendered }
  have hb : b' ∈ front ++ b' :: back := mem_insert.2 (.inl rfl)
  have hown : ∀ c ∈ rendered, c ∈ b'.own := fun c hc =>
    List.mem_cons_of_mem _ (List.mem_cons_of_mem _ hc)
  have hnodup : b'.own.Nodup := (nodup_own_insert.1 h.homed.distinct).2.1
  dsimp only
  generalize (despiteFailures HostTree.destroy rendered t).2 = t' at *
  refine ⟨?_, hcleared.beside hl hguard fun c hc => ⟨hapart.own c (hown c hc), fun p hp =>
    hapart.home p (h.homed.home_eq hb (.inr (hown c hc)) hp)⟩, fun hlive => ?_⟩
  · have hstep : Settled t₀ (front ++ b' :: back) (n + 1) t' :=
      h.step hcleared.sound haged hfew fun x p _ hp => .inl <| by
        rwa [(hcleared.parent?_eq (HostTree.live_of_parent? hp)).2] at hp
    refine hstep.exchange rfl ?_ fun o ho => .inl ?_
    · exact hnodup.sublist (((List.nil_sublist _).cons_cons _).cons_cons _)
    · exact (((List.nil_sublist rendered).cons_cons placeholder).cons_cons template).subset ho
  · -- The template has nothing to do with the copies.
    have htemplate : template ∈ b'.own := List.mem_cons_self
    have hne : ∀ c ∈ rendered, c ≠ template := by
      rintro c hc rfl
      exact (List.nodup_cons.1 hnodup).1 (List.mem_cons_of_mem _ hc)
    have hout : ∀ c ∈ rendered, ¬ t.Below template c := fun c hc =>
      h.homed.own_apart ht hb htemplate hb (hown c hc) (hne c hc)
    have hfixed : t.Fixed t' template := by
      intro y hy
      obtain ⟨hcontent, -, hchildren⟩ := hcleared.kept y fun c hc _ hcy =>
        (hl.below_total hcy hy).elim
          (h.homed.own_apart ht hb (hown c hc) hb htemplate (hne c hc).symm) (hout c hc)
      refine ⟨hcontent, hchildren.trans (List.filter_eq_self.2 fun z hz => decide_eq_true ?_)⟩
      exact fun hmem => hout z hmem (hy.tail hz)
    exact hfixed.weight_eq hs hcleared.sound (hcleared.left template hlive).1

theorem updateRepetition_settled (ht : t₀.Tree)
    (h : Settled t₀
      (front ++ { b with directive := .repetition clause template placeholder rendered } :: back) n
      page.host)
    (hguard : page.host.Guarded P)
    (hapart : ApartFrom t₀ P
      { b with directive := .repetition clause template placeholder rendered })
    (hfew : n + page.releases
      { b with directive := .repetition clause template placeholder rendered } < UInt32.size) :
    let r := page.updateRepetition clause template placeholder rendered
    Settled t₀
        (front ++ { b with directive := .repetition clause template placeholder r.2.1 } :: back)
        (n + page.releases { b with directive := .repetition clause template placeholder rendered })
        r.2.2.host ∧
      HostTree.Beside P page.host r.2.2.host := by
  have hhost := page.listAt_host clause.list
  dsimp only [releases] at hfew ⊢
  rw [updateRepetition]
  generalize page.listAt clause.list = list at hhost hfew ⊢
  obtain ⟨_ | values, page₁⟩ := list
  · dsimp only at hhost ⊢
    rw [hhost]
    exact ⟨h, h.homed.sound, fun _ _ => rfl⟩
  · dsimp only at hhost hfew ⊢
    rw [← hhost] at h hguard hfew ⊢
    obtain ⟨h₁, hbeside, hweight⟩ := destroyAll_settled ht h hguard hapart (by omega)
    generalize despiteFailures HostTree.destroy rendered page₁.host = cleared at h₁ hbeside hweight
    obtain ⟨earlier, t₁⟩ := cleared
    let page₂ : Page := { page₁ with host := t₁ }
    have h₂ : Settled t₀
        (front ++ { b with directive := .repetition clause template placeholder [] } :: back) (n + 1)
        page₂.host := h₁
    obtain ⟨h₃, hbeside'⟩ := renderItems_settled ht hapart.home clause.item earlier values h₂
      (hguard.beside hbeside) List.mem_cons_self (fun hlive => (hweight hlive).le) (by omega)
    exact ⟨h₃.mono (by omega), hbeside.trans hbeside'⟩

/-- An update of a binding, also one that fails on the way, keeps all nodes at home and leaves alone
    what is apart from the binding. -/
theorem update_settled (ht : t₀.Tree) (h : Settled t₀ (front ++ b :: back) n page.host)
    (hguard : page.host.Guarded P) (hapart : ApartFrom t₀ P b)
    (hfew : n + page.releases b < UInt32.size) :
    Settled t₀ (front ++ (page.update b).2.1 :: back) (n + page.releases b)
        (page.update b).2.2.host ∧
      HostTree.Beside P page.host (page.update b).2.2.host := by
  obtain ⟨id, node, source, directive, reads⟩ := b
  cases directive with
  | text expression shown =>
    obtain ⟨h', hbeside⟩ := updateText_settled h hguard hapart.node hfew shown
    exact ⟨h'.relabel rfl rfl, hbeside⟩
  | visibility expression =>
    exact settled_of_repainted h hapart.node hfew (page.updateVisibility_cases node expression).2
  | presence expression placeholder present =>
    exact updatePresence_settled (b := ⟨id, node, source, _, reads⟩) ht h hguard hapart
  | repetition clause template placeholder rendered =>
    exact updateRepetition_settled (b := ⟨id, node, source, _, reads⟩) ht h hguard hapart hfew
  | model expression listener =>
    exact settled_of_repainted h hapart.node hfew (page.updateModel_cases node expression).2
  | events listeners => exact ⟨h, h.homed.sound, fun _ _ => rfl⟩

end Page

/-! ## Undoing a binding -/

namespace Homed

/-- A node comes back into the place of what stood in for it, if that has a place. -/
theorem vacate (h : Homed t₀ (b :: bs) t) (ht : t₀.Tree) (ho : placeholder ∈ b.own)
    (hguard : t.Guarded P) (hapart : ApartFrom t₀ P b) :
    Homed t₀ bs (t.replace placeholder b.node).2 ∧
      HostTree.Beside P t (t.replace placeholder b.node).2 := by
  have hne : placeholder ≠ b.node := fun heq =>
    h.new b List.mem_cons_self _ ho (heq ▸ h.nodes b List.mem_cons_self)
  obtain ⟨hhomed, hbeside⟩ :=
    h.replace ht List.mem_cons_self (.inr ho) (.inl rfl) hne hguard hapart
  exact ⟨hhomed.tail, hbeside⟩

/-- Listeners are taken away, as far as they are there. -/
theorem removeListeners (hnode : ¬ P node) (hooks : List Nat) :
    ∀ {t : HostTree Reaction}, Homed t₀ bs t →
      let t' := (despiteFailures (fun t l => HostTree.removeListener t node l) hooks t).2
      Homed t₀ bs t' ∧ HostTree.Beside P t t' := by
  induction hooks with
  | nil => exact fun h => ⟨h, h.sound, fun _ _ => rfl⟩
  | cons hook hooks ih =>
    intro t h
    dsimp only
    rw [despiteFailures]
    cases hremove : t.removeListener node hook with
    | error e => exact ih h
    | ok t₁ =>
      obtain ⟨change, rfl, hkeeps⟩ := HostTree.removeListener_modifies h.sound hremove
      have h₁ : Homed t₀ bs (t.modify node change) :=
        h.step hkeeps.sound (fun _ _ hx => HostTree.live_modify_iff.1 hx) fun x p hx hp =>
          .inl (hkeeps.parent x hx ▸ hp)
      have hbeside : HostTree.Beside P t (t.modify node change) := by
        refine ⟨hkeeps.sound, fun y hy => HostTree.node?_modify_of_ne ?_ change⟩
        rintro rfl
        exact hnode hy
      obtain ⟨h₂, hbeside'⟩ := ih h₁
      exact ⟨h₂, hbeside.trans hbeside'⟩

end Homed

/-- Undoing a binding keeps all nodes at home, and leaves alone what is apart from the binding. -/
theorem Binding.cleanup_homed (ht : t₀.Tree) (h : Homed t₀ (b :: bs) t) (hguard : t.Guarded P)
    (hapart : ApartFrom t₀ P b) :
    Homed t₀ bs (b.cleanup t).2 ∧ HostTree.Beside P t (b.cleanup t).2 := by
  have hsame : Homed t₀ bs t ∧ HostTree.Beside P t t := ⟨h.tail, h.sound, fun _ _ => rfl⟩
  obtain ⟨id, node, source, directive, reads⟩ := b
  cases directive with
  | text expression shown => exact hsame
  | visibility expression => exact hsame
  | presence expression placeholder present =>
    cases present with
    | true => exact hsame
    | false =>
      have hdone := h.vacate ht (List.mem_singleton_self _) hguard hapart
      rw [cleanup]
      dsimp only at hdone ⊢
      generalize t.replace placeholder node = replaced at hdone
      obtain ⟨_ | _, t'⟩ := replaced <;> exact hdone
  | repetition clause template placeholder rendered =>
    let b : Binding := ⟨id, node, source, .repetition clause template placeholder rendered, reads⟩
    have hcleared := HostTree.destroyAll_clears rendered h.sound
    have hown : ∀ c ∈ rendered, c ∈ b.own := fun c hc =>
      List.mem_cons_of_mem _ (List.mem_cons_of_mem _ hc)
    have hbeside := hcleared.beside h.sound.tree.linked hguard fun c hc =>
      ⟨hapart.own c (hown c hc), fun p hp =>
        hapart.home p (h.home_eq (b := b) List.mem_cons_self (.inr (hown c hc)) hp)⟩
    have hback := (h.cleared hcleared).vacate ht (List.mem_cons_of_mem _ List.mem_cons_self)
      (hguard.beside hbeside) hapart
    rw [cleanup]
    dsimp only at hback ⊢
    generalize despiteFailures HostTree.destroy rendered t = destroyed at hbeside hback
    obtain ⟨first, t₁⟩ := destroyed
    dsimp only at hbeside hback ⊢
    generalize t₁.replace placeholder node = replaced at hback
    obtain ⟨_ | _, t'⟩ := replaced <;> exact ⟨hback.1, hbeside.trans hback.2⟩
  | model expression listener => exact h.tail.removeListeners hapart.node [listener]
  | events listeners => exact h.tail.removeListeners hapart.node listeners

end ReactiveTemplate
