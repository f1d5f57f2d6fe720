import ReactiveTemplate.Engine.Basic
import ReactiveTemplate.Proofs.Engine.Updates

/-!
# Sweeps over the bindings

A flush goes through the bindings and updates those that the changes can affect. Each update
succeeds, so afterwards these bindings show the state, and the others show what they showed.

* `Page.Carries`: what becomes of a binding in a sweep.
* `Page.Swept`: what a sweep does.
* `Engine.flushEach_spec`, `Engine.updateAll_spec`: the sweeps of flushing and of mounting.
-/

namespace ReactiveTemplate

variable {t₀ : HostTree Reaction} {bs bs' front back rest rest' : List Binding} {b b' c : Binding}

namespace Page

variable {page page' page'' : Page} {chosen : Binding → Prop}

/-- The copies of a binding have some shapes. -/
def Lists (page : Page) (b : Binding) (shapes : List (Branch Figure)) : Prop :=
  List.Forall₂ page.host.Draws b.rendered shapes

/-- The shapes of the items of a list, for a repetition whose path leads to one. Other bindings
    have no copies. -/
def Due (t₀ : HostTree Reaction) (page : Page) (b : Binding) (shapes : List (Branch Figure)) :
    Prop :=
  match b.directive with
  | .repetition clause _ _ _ =>
    ∃ id shape, resolvePath page.state.heap page.state.scope clause.list = .ok (.array id) ∧
      t₀.Draws b.node shape ∧ shapes = (page.state.heap.items id).map fun value =>
        shape.rendered page.config page.state.heap (.item clause.item value page.state.scope)
  | _ => shapes = []

/-- The copies of a binding that shows the state are those of a list, if there is one. -/
theorem Shows.lists (h : page.Shows t₀ b) :
    b.WithoutList page ∨ ∃ shapes, Due t₀ page b shapes ∧ page.Lists b shapes := by
  unfold Shows at h
  cases hdir : b.directive with
  | repetition clause template placeholder rendered =>
    rw [hdir] at h
    by_cases hlist : ∃ id, resolvePath page.state.heap page.state.scope clause.list = .ok (.array id)
    · obtain ⟨id, hid⟩ := hlist
      obtain ⟨shape, hshape, hcopies⟩ := h id hid
      have hdue : Due t₀ page b ((page.state.heap.items id).map fun value =>
          shape.rendered page.config page.state.heap (.item clause.item value page.state.scope)) := by
        rw [Due, hdir]
        exact ⟨id, shape, hid, hshape, rfl⟩
      refine .inr ⟨_, hdue, ?_⟩
      rw [Lists, Binding.rendered, hdir, List.forall₂_map_right_iff]
      exact hcopies
    · exact .inl ⟨clause, template, placeholder, rendered, hdir, fun id hid => hlist ⟨id, hid⟩⟩
  | _ =>
    have hdue : Due t₀ page b [] := by rw [Due, hdir]
    refine .inr ⟨[], hdue, ?_⟩
    rw [Lists, Binding.rendered, hdir]
    exact .nil

/-- What becomes of a binding in a sweep that updates the chosen ones. -/
structure Carries (t₀ : HostTree Reaction) (chosen : Binding → Prop) (page page' : Page)
    (b b' : Binding) : Prop where
  same : b'.forget = b.forget
  shows : chosen b ∨ page.Shows t₀ b → page'.Shows t₀ b'
  lists : ∀ shapes, page.Lists b shapes → (chosen b → b.WithoutList page) → page'.Lists b' shapes
  filled : b.filled? ≠ none → b'.filled? ≠ none

/-- What a sweep over the rest of the bindings does. -/
structure Swept (t₀ : HostTree Reaction) (chosen : Binding → Prop) (page page' : Page)
    (front rest rest' : List Binding) : Prop where
  calm : page.Calm page'
  ready : page'.Ready t₀ (front ++ rest')
  carried : List.Forall₂ (Carries t₀ chosen page page') rest rest'
  beside : ∀ c ∈ front, Carries t₀ (fun _ => False) page page' c c
  heard : ∀ x, Standing t₀ (front ++ rest') x → page'.host.listenersOf x = page.host.listenersOf x
  listeners : page.host.KeepsListeners page'.host

/-! ## One binding -/

theorem withoutList_of_state (hheap : page'.state.heap = page.state.heap)
    (hscope : page'.state.scope = page.state.scope) :
    b.WithoutList page' ↔ b.WithoutList page := by
  rw [Binding.WithoutList, Binding.WithoutList, hheap, hscope]

theorem Calm.withoutList (h : page.Calm page') : b.WithoutList page' ↔ b.WithoutList page :=
  withoutList_of_state h.heap h.scope

theorem repetition_of_forget (h : b'.directive.forget = b.directive.forget) {clause : ForClause}
    {template placeholder : NodeId} {rendered : List NodeId}
    (hdir : b.directive = .repetition clause template placeholder rendered) :
    ∃ rendered', b'.directive = .repetition clause template placeholder rendered' := by
  rw [hdir] at h
  cases hdir' : b'.directive with
  | repetition clause' template' placeholder' rendered' =>
    rw [hdir'] at h
    obtain ⟨rfl, rfl, rfl, -⟩ := Directive.repetition.inj h
    exact ⟨rendered', rfl⟩
  | _ =>
    rw [hdir'] at h
    cases h

theorem withoutList_of_forget (h : b'.directive.forget = b.directive.forget)
    (hb : b.WithoutList page) : b'.WithoutList page := by
  obtain ⟨clause, template, placeholder, rendered, hdir, hnone⟩ := hb
  obtain ⟨rendered', hdir'⟩ := repetition_of_forget h hdir
  exact ⟨clause, template, placeholder, rendered', hdir', hnone⟩

theorem Updated.lists_beside (hr : Ready t₀ page (front ++ b :: back))
    (h : Updated t₀ page page' front back b b') (hc : c ∈ front ∨ c ∈ back)
    {shapes : List (Branch Figure)} (hlists : page.Lists c shapes) : page'.Lists c shapes := by
  by_cases hcopies : c.rendered = []
  · rw [Lists, hcopies] at hlists ⊢
    cases hlists
    exact .nil
  · have hown : ∀ o ∈ c.rendered, c.kind = .repetition ∧ o ∈ c.own := by
      intro o ho
      rw [Binding.rendered] at ho
      rw [Binding.kind, Binding.own]
      cases hdir : c.directive with
      | repetition clause template placeholder rendered =>
        rw [hdir] at ho
        exact ⟨rfl, by simp [show o ∈ rendered from ho]⟩
      | _ =>
        rw [hdir] at ho
        cases ho
    refine List.forall₂_iff_zip.2 ⟨hlists.length_eq, fun {o shape} hmem => ?_⟩
    have hdrawn := (List.forall₂_iff_zip.1 hlists).2 hmem
    obtain ⟨hkind, ho⟩ := hown o (List.of_mem_zip hmem).1
    refine h.spares.copies c (mem_of_beside hc) (fun hb hnode => ?_) o ho shape hdrawn
    exact hr.declared.ne_of_mem hc hnode (hkind.trans hb.symm)

/-- A binding that shows the state as a text has filled its element. -/
theorem Updated.filled (h : Updated t₀ page page' front back b b') (hb : b.filled? ≠ none) :
    b'.filled? ≠ none := by
  have hdirective := congrArg Binding.directive h.same
  have hshows := h.shows
  rw [Binding.filled?] at hb ⊢
  unfold Shows at hshows
  cases hdir : b.directive with
  | text e shown =>
    cases hdir' : b'.directive with
    | text e' shown' =>
      rw [hdir'] at hshows
      dsimp only at hshows ⊢
      rw [hshows]
      simp
    | _ =>
      simp only [Binding.forget, hdir, hdir', Directive.forget] at hdirective
      cases hdirective
  | _ =>
    rw [hdir] at hb
    exact absurd rfl hb

theorem Updated.carries (hb : chosen b) (h : Updated t₀ page page' front back b b') :
    Carries t₀ chosen page page' b b' := by
  refine ⟨h.same, fun _ => h.shows, fun shapes hlists hnone => ?_, h.filled⟩
  obtain ⟨hrendered, hhost⟩ := h.idle (hnone hb)
  rw [Lists, hrendered, hhost]
  exact hlists

theorem Updated.carries_beside (hr : Ready t₀ page (front ++ b :: back))
    (h : Updated t₀ page page' front back b b') (hc : c ∈ front ∨ c ∈ back) :
    Carries t₀ (fun _ => False) page page' c c :=
  ⟨rfl, fun hshows => h.beside hr hc (hshows.resolve_left id),
    fun _ hlists _ => h.lists_beside hr hc hlists, id⟩

theorem Carries.refl (t₀ : HostTree Reaction) (page : Page) (b : Binding) :
    Carries t₀ (fun _ => False) page page b b :=
  ⟨rfl, fun hshows => hshows.resolve_left id, fun _ hlists _ => hlists, id⟩

/-- A binding that a first sweep leaves alone is left to the second one. -/
theorem Carries.after (hcalm : page.Calm page')
    (h : Carries t₀ (fun _ => False) page page' b b) (h' : Carries t₀ chosen page' page'' b b') :
    Carries t₀ chosen page page'' b b' :=
  ⟨h'.same, fun hshows => h'.shows (hshows.imp_right fun hs => h.shows (.inr hs)),
    fun shapes hlists hnone => h'.lists shapes (h.lists shapes hlists nofun)
      fun hb => hcalm.withoutList.2 (hnone hb), h'.filled⟩

/-- A binding that a first sweep has dealt with is left alone by the second one. -/
theorem Carries.before (h : Carries t₀ chosen page page' b b')
    (h' : Carries t₀ (fun _ => False) page' page'' b' b') : Carries t₀ chosen page page'' b b' :=
  ⟨h.same, fun hshows => h'.shows (.inr (h.shows hshows)),
    fun shapes hlists hnone => h'.lists shapes (h.lists shapes hlists hnone) nofun,
    fun hfilled => h'.filled (h.filled hfilled)⟩

/-- The copies of a binding after a sweep, if it had some before. -/
theorem Carries.lists_after (hcalm : page.Calm page') (h : Carries t₀ chosen page page' b b')
    (hshows : page'.Shows t₀ b') {shapes : List (Branch Figure)} (hlists : page.Lists b shapes) :
    ∃ shapes', page'.Lists b' shapes' ∧ (shapes' = shapes ∨ Due t₀ page' b' shapes') := by
  rcases hshows.lists with hnone | ⟨shapes', hdue, hlists'⟩
  · refine ⟨shapes, h.lists shapes hlists fun _ => hcalm.withoutList.1 ?_, .inl rfl⟩
    exact withoutList_of_forget (congrArg Binding.directive h.same).symm hnone
  · exact ⟨shapes', hlists', .inr hdue⟩

/-! ## All bindings -/

theorem exists_of_forall₂ {α β : Type} {R : α → β → Prop} {xs : List α} {ys : List β} {x : α}
    (h : List.Forall₂ R xs ys) (hx : x ∈ xs) : ∃ y ∈ ys, R x y := by
  induction h with
  | nil => cases hx
  | cons hr _ ih =>
    rcases List.mem_cons.1 hx with rfl | hx
    · exact ⟨_, by simp, hr⟩
    · obtain ⟨y, hy, hrel⟩ := ih hx
      exact ⟨y, by simp [hy], hrel⟩

theorem Swept.nil (hr : Ready t₀ page front) : Swept t₀ chosen page page front [] [] := by
  rw [← List.append_nil front] at hr
  exact ⟨Calm.refl hr.cache, hr, .nil, fun c _ => Carries.refl t₀ page c, fun _ _ => rfl,
    HostTree.KeepsListeners.refl _⟩

/-- A sweep that chooses no binding. -/
theorem Swept.idle (hr : Ready t₀ page rest) (hnone : ∀ b ∈ rest, ¬ chosen b) :
    Swept t₀ chosen page page [] rest rest :=
  ⟨Calm.refl hr.cache, hr, List.forall₂_same.2 fun b hb =>
    ⟨rfl, fun hshows => hshows.resolve_left (hnone b hb), fun _ hlists _ => hlists, id⟩, nofun,
    fun _ _ => rfl, HostTree.KeepsListeners.refl _⟩

/-- Quiet steps after a sweep. -/
theorem Swept.quiet (h : Swept t₀ chosen page page' front rest rest') (hcalm : page'.Calm page'')
    (hhost : page''.host = page'.host) : Swept t₀ chosen page page'' front rest rest' := by
  have hcarries : ∀ {chosen : Binding → Prop} {b b' : Binding},
      Carries t₀ chosen page page' b b' → Carries t₀ chosen page page'' b b' := fun h =>
    ⟨h.same, fun hshows => (shows_of_store hcalm.config hcalm.store hhost).2 (h.shows hshows),
      fun shapes hlists hnone => by
        rw [Lists, hhost]
        exact h.lists shapes hlists hnone, h.filled⟩
  have hunlocked : ∀ c, page''.state.heap.isLocked c = false := by
    rw [hcalm.heap]
    exact h.ready.unlocked
  refine ⟨h.calm.trans hcalm, h.ready.carry hcalm.config hhost hcalm.cache hunlocked,
    h.carried.imp fun _ _ => hcarries, fun c hc => hcarries (h.beside c hc), ?_, ?_⟩
  · rw [hhost]
    exact h.heard
  · rw [hhost]
    exact h.listeners

/-- A binding that is not chosen is passed over. -/
theorem Swept.skip (hb : ¬ chosen b) (h : Swept t₀ chosen page page' (front ++ [b]) rest rest') :
    Swept t₀ chosen page page' front (b :: rest) (b :: rest') := by
  have hself := h.beside b (by simp)
  refine ⟨h.calm, ?_, .cons ?_ h.carried, fun c hc => h.beside c (by simp [hc]), ?_, h.listeners⟩
  · rw [List.append_cons]
    exact h.ready
  · exact ⟨rfl, fun hshows => hself.shows (.inr (hshows.resolve_left hb)),
      fun shapes hlists _ => hself.lists shapes hlists nofun, id⟩
  · rw [List.append_cons]
    exact h.heard

/-- A binding is updated, and then the rest is swept. -/
theorem Swept.update (hb : chosen b) (hr : Ready t₀ page (front ++ b :: rest))
    (hu : Updated t₀ page page' front rest b b')
    (h : Swept t₀ chosen page' page'' (front ++ [b']) rest rest') :
    Swept t₀ chosen page page'' front (b :: rest) (b' :: rest') := by
  have hready : page''.Ready t₀ (front ++ b' :: rest') := by
    rw [List.append_cons]
    exact h.ready
  have hcarried : List.Forall₂ (Carries t₀ chosen page page'') rest rest' := by
    refine List.forall₂_iff_zip.2 ⟨h.carried.length_eq, fun {c c'} hmem => ?_⟩
    have hc : c ∈ rest := (List.of_mem_zip hmem).1
    exact ((hu.carries_beside hr (.inr hc)).after hu.calm ((List.forall₂_iff_zip.1 h.carried).2 hmem))
  refine ⟨hu.calm.trans h.calm, hready, .cons ?_ hcarried, fun c hc => ?_, fun x hx => ?_,
    hu.spares.listeners.trans h.listeners⟩
  · exact (hu.carries hb).before (h.beside b' (by simp))
  · exact (hu.carries_beside hr (.inl hc)).before (h.beside c (by simp [hc]))
  · rw [h.heard x (by rw [← List.append_cons]; exact hx), hu.spares.heard x ?_]
    -- What is filled before the sweep of the rest is filled after it.
    refine ⟨hx.live, fun y hy => hx.free y ?_⟩
    obtain ⟨c, hc, rfl, hfilled⟩ := hy
    rcases mem_replace hc with rfl | hc | hc
    · exact ⟨c, by simp, rfl, hfilled⟩
    · exact ⟨c, by simp [hc], rfl, hfilled⟩
    · obtain ⟨c', hc', hcarries⟩ := exists_of_forall₂ hcarried hc
      refine ⟨c', by simp [hc'], ?_, hcarries.filled hfilled⟩
      have hnode := congrArg Binding.node hcarries.same
      exact hnode

end Page

/-! ## Engines -/

namespace Engine

variable {e : Engine}

theorem update_spec (hr : e.page.Ready t₀ (front ++ b :: back)) :
    ∃ b' page', e.update b = (true, b', { e with page := page' }) ∧
      Page.Updated t₀ e.page page' front back b b' := by
  obtain ⟨b', page', hupdate, h⟩ := Page.update_spec hr
  exact ⟨b', page', by rw [update, hupdate], h⟩

/-- A flush updates the bindings that the changes can affect. -/
theorem flushEach_spec (changed : List String) (rest : List Binding) :
    ∀ {e : Engine} {front : List Binding} (report : FlushReport),
      e.page.Ready t₀ (front ++ rest) →
        ∃ rest' report' page', flushEach changed rest report e =
            (rest', report', { e with page := page' }) ∧
          Page.Swept t₀ (fun b => b.isAffectedBy changed = true) e.page page' front rest rest' := by
  induction rest with
  | nil =>
    intro e front report hr
    rw [List.append_nil] at hr
    exact ⟨[], report, e.page, rfl, Page.Swept.nil hr⟩
  | cons b rest ih =>
    intro e front report hr
    by_cases hb : b.isAffectedBy changed = true
    · obtain ⟨b', page₁, hupdate, hu⟩ := update_spec hr
      have hr₁ := hr.updated hu
      rw [List.append_cons] at hr₁
      obtain ⟨rest', report', page', hflush, h⟩ := ih (e := { e with page := page₁ })
        { report with updated := report.updated + 1 } hr₁
      refine ⟨b' :: rest', report', page', ?_, Page.Swept.update hb hr hu h⟩
      simp only [flushEach, hb, hupdate, hflush, if_true]
    · rw [List.append_cons] at hr
      obtain ⟨rest', report', page', hflush, h⟩ := ih
        { report with skipped := report.skipped + 1 } hr
      refine ⟨b :: rest', report', page', ?_, Page.Swept.skip hb h⟩
      simp only [flushEach, hb, hflush, if_false, Bool.false_eq_true]

/-- Mounting updates all new bindings. -/
theorem updateAll_spec (rest : List Binding) :
    ∀ {e : Engine} {front : List Binding}, e.page.Ready t₀ (front ++ rest) →
      ∃ rest' page', updateAll rest e = (rest', { e with page := page' }) ∧
        Page.Swept t₀ (fun _ => True) e.page page' front rest rest' := by
  induction rest with
  | nil =>
    intro e front hr
    rw [List.append_nil] at hr
    exact ⟨[], e.page, rfl, Page.Swept.nil hr⟩
  | cons b rest ih =>
    intro e front hr
    obtain ⟨b', page₁, hupdate, hu⟩ := update_spec hr
    have hr₁ := hr.updated hu
    rw [List.append_cons] at hr₁
    obtain ⟨rest', page', hall, h⟩ := ih (e := { e with page := page₁ }) hr₁
    refine ⟨b' :: rest', page', ?_, Page.Swept.update trivial hr hu h⟩
    simp only [updateAll, hupdate, hall]

end Engine

end ReactiveTemplate
