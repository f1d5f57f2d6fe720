import Mathlib.Data.List.Dedup
import ReactiveTemplate.Proofs.Engine.Holdings

/-!
# The books of a document

Rendering a list makes nodes, and rendering it again gives them back: what a document has more or
less after an update is what the copies of lists and the texts of elements have more or less. This
holds of templates in which elements that show a text contain nothing but texts; anything else that
such an element contains is left over without a parent when the text is set.

* `HostTree.turnover`: the nodes in copies and texts.
* `Page.removeAll_books`, `Page.renderItems_books`: the copies of a list go and come.
* `Page.update_books`: an update of any binding.
-/

namespace ReactiveTemplate

variable {t₀ t t' t'' : HostTree Reaction} {shows : NodeId → Prop} {bs front back : List Binding}
  {b c d : Binding} {x p o anchor copy node template placeholder : NodeId}
  {rest rendered : List NodeId} {clause : ForClause} {name : String}

/-! ## Nodes that come and go -/

/-- The elements that show a text. -/
def shownNodes (bs : List Binding) : List NodeId :=
  ((bs.filter fun b => b.kind = .bind).map Binding.node).dedup

namespace HostTree

/-- The number of nodes in the copies that a binding has rendered. -/
def copyWeight (t : HostTree Reaction) (b : Binding) : Nat := (b.rendered.map t.weight).sum

/-- The number of nodes in the copies that bindings have rendered and in the texts that elements
    show. -/
def turnover (t : HostTree Reaction) (bs : List Binding) : Nat :=
  (bs.map t.copyWeight).sum + ((shownNodes bs).map t.textWeight).sum

end HostTree

/-- The document has as many nodes more or less as copies and texts have. -/
def Balanced (bs bs' : List Binding) (t t' : HostTree Reaction) : Prop :=
  t'.liveCount + t.turnover bs = t.liveCount + t'.turnover bs'

theorem mem_shownNodes : x ∈ shownNodes bs ↔ ∃ b ∈ bs, b.kind = .bind ∧ b.node = x := by
  simp [shownNodes, and_assoc]

theorem shownNodes_exchange (hnode : d.node = b.node) (hkind : d.kind = b.kind) :
    shownNodes (front ++ d :: back) = shownNodes (front ++ b :: back) := by
  simp only [shownNodes, List.filter_append, List.filter_cons, hkind]
  split <;> simp [hnode]

theorem turnover_insert : t.turnover (front ++ b :: back) = t.copyWeight b +
    ((front ++ back).map t.copyWeight).sum + ((shownNodes (front ++ b :: back)).map t.textWeight).sum := by
  simp only [HostTree.turnover, List.map_append, List.map_cons, List.sum_append, List.sum_cons]
  omega

namespace Binding

/-- The copies that a binding has rendered are its own. -/
theorem mem_own_of_mem_rendered (ho : o ∈ b.rendered) : o ∈ b.own := by
  rw [rendered] at ho
  rw [own]
  cases hdir : b.directive <;> simp_all

/-- Without some of its copies, a binding has its other nodes still. -/
theorem own_rest (copies : List NodeId)
    (hdistinct : { b with
      directive := .repetition clause template placeholder (copies ++ rest) : Binding }.own.Nodup)
    (ho : o ∈ { b with directive := .repetition clause template placeholder rest : Binding }.own) :
    o ∈ { b with directive := .repetition clause template placeholder (copies ++ rest) : Binding }.own ∧
      o ∉ copies := by
  simp only [own, List.nodup_cons, List.mem_cons, List.mem_append, not_or] at hdistinct ho ⊢
  obtain ⟨⟨-, htemplate, -⟩, ⟨hplaceholder, -⟩, hcopies⟩ := hdistinct
  rcases ho with rfl | rfl | ho
  · exact ⟨.inl rfl, htemplate⟩
  · exact ⟨.inr (.inl rfl), hplaceholder⟩
  · refine ⟨.inr (.inr (.inr ho)), fun hcopy => ?_⟩
    exact (List.nodup_append.1 hcopies).2.2 o hcopy o ho rfl

theorem rendered_of_kind (hkind : b.kind = .bind) : b.rendered = [] := by
  obtain ⟨id, node, source, directive, reads⟩ := b
  cases directive with
  | repetition => cases hkind
  | _ => rfl

end Binding

namespace Respects

theorem copyWeight (h : Respects bs t t') (hs : t.Sound) (hs' : t'.Sound) (hb : b ∈ bs)
    (hlive : ∀ o ∈ b.own, t.Live o) : t'.copyWeight b = t.copyWeight b := by
  refine congrArg List.sum (List.map_congr_left fun o ho => ?_)
  have hown := Binding.mem_own_of_mem_rendered ho
  exact (h.own b hb o hown).weight_eq hs hs' (hlive o hown)

theorem textWeight (h : Respects bs t t') (hx : x ∈ shownNodes bs) :
    t'.textWeight x = t.textWeight x := by
  obtain ⟨b, hb, hkind, rfl⟩ := mem_shownNodes.1 hx
  exact h.texts b hb hkind

end Respects

/-- A step that is about the copies of one binding. -/
theorem Balanced.exchange (hnode : d.node = b.node) (hkind : d.kind = b.kind)
    (hothers : ∀ c ∈ front ++ back, t'.copyWeight c = t.copyWeight c)
    (htexts : ∀ x ∈ shownNodes (front ++ b :: back), t'.textWeight x = t.textWeight x)
    (hcount : t'.liveCount + t.copyWeight b = t.liveCount + t'.copyWeight d) :
    Balanced (front ++ b :: back) (front ++ d :: back) t t' := by
  rw [Balanced, turnover_insert, turnover_insert, shownNodes_exchange hnode hkind,
    List.map_congr_left hothers, List.map_congr_left htexts]
  omega

/-! ## Copies -/

namespace Page

variable {page : Page}

/-- The copies of a list are destroyed. -/
theorem removeAll_books (ht : t₀.Tree) {rendered : List NodeId} :
    ∀ {t : HostTree Reaction},
      Held t₀ shows
        (front ++ { b with directive := .repetition clause template placeholder rendered } :: back) t →
      let t' := (despiteFailures HostTree.destroy rendered t).2
      Held t₀ shows
          (front ++ { b with directive := .repetition clause template placeholder [] } :: back) t' ∧
        Respects
          (front ++ { b with directive := .repetition clause template placeholder [] } :: back) t t' ∧
        t.liveCount = t'.liveCount + (rendered.map t.weight).sum := by
  induction rendered with
  | nil => exact fun h => ⟨h, .refl _ _, rfl⟩
  | cons copy rest ih =>
    intro t h
    have hs := h.sound
    let b' : Binding := { b with directive := .repetition clause template placeholder (copy :: rest) }
    let d : Binding := { b with directive := .repetition clause template placeholder rest }
    have hb' : b' ∈ front ++ b' :: back := mem_insert.2 (.inl rfl)
    have hcopy : copy ∈ b'.own := by simp [b', Binding.own]
    have hroot : copy ≠ HostTree.root := h.restorable.not_safe_own hb' hcopy ht.root_safe
    have hlive := (h.restorable.made b' hb' copy hcopy).live
    obtain ⟨t₁, hdestroy, hr₁, -, hremoved⟩ := h.restorable.removed ht rfl (d := d) rfl rfl
    have hown : ∀ y ∈ d.own, y ∈ b'.own ∧ y ≠ copy := by
      intro y hy
      have hdistinct : b'.own.Nodup := (nodup_own_insert.1 h.restorable.distinct).2.1
      obtain ⟨hyb, hne⟩ := Binding.own_rest (b := b) [copy] hdistinct hy
      exact ⟨hyb, fun heq => hne (List.mem_singleton.2 heq)⟩
    have hrespects : Respects (front ++ d :: back) t t₁ :=
      h.respects_removed ht hcopy hremoved rfl rfl hown
    have hcount := hs.liveCount_destroy hlive hroot hdestroy
    obtain ⟨h', hrespects', hcount'⟩ := ih (h.exchange hr₁ rfl rfl)
    have hweights : rest.map t₁.weight = rest.map t.weight := by
      refine List.map_congr_left fun o ho => ?_
      refine (hrespects.own d (mem_insert.2 (.inl rfl)) o ?_).weight_eq hs hremoved.sound ?_
      · simp [d, Binding.own, ho]
      · exact (h.restorable.made b' hb' o (hown o (by simp [d, Binding.own, ho])).1).live
    have hrespects₀ : Respects
        (front ++ { b with directive := .repetition clause template placeholder [] } :: back) t t₁ :=
      hrespects.mono rfl rfl (by simp [d, Binding.own])
    dsimp only
    rw [despiteFailures, hdestroy]
    dsimp only
    refine ⟨h', hrespects₀.trans hrespects', ?_⟩
    rw [List.map_cons, List.sum_cons, hcount, hcount', hweights]
    omega

/-- A new copy holds all nodes that there are more. -/
theorem liveCount_copy (ht : t.Sound) (h : Contained t name copy t') (hnew : ¬ t.Live copy) :
    t'.liveCount = t.liveCount + t'.weight copy := by
  have hbeside := h.drafted.beside
  have hl := hbeside.sound.tree.linked
  refine ht.liveCount_split hbeside.sound h.drafted.live (fun y => ⟨h.whole y, ?_⟩) fun y hy hlive => ?_
  · rintro (hy | hy)
    · exact hbeside.keepsPlaces.live y hy
    · exact hy.live hl h.drafted.live
  · exact hnew ((h.drafted.guarded ht).of_below hl hy hlive)

/-- A new copy is placed behind the last one, or it stays on its own. -/
theorem placeCopy_books (ht : t₀.Tree) {P : Prop}
    (h : Held t₀ shows
      (front ++ { b with directive := .repetition clause template placeholder rendered } :: back) t)
    (hanchor : (placeholder :: rendered).getLast? = some anchor) (hdraft : Drafted t copy page.host)
    (hcontained : P → Contained t (page.attributeName .bind) copy page.host)
    (hnew : ¬ t.Live copy) (item : String) (value : Value) :
    (∃ page', page.placeCopy anchor copy item value = (.ok (), page') ∧
      page'.config = page.config ∧
      Held t₀ shows (front ++
        { b with directive := .repetition clause template placeholder (rendered ++ [copy]) } :: back)
        page'.host ∧
      Respects
        (front ++ { b with directive := .repetition clause template placeholder rendered } :: back) t
        page'.host ∧
      (P → page'.host.liveCount = t.liveCount + page'.host.weight copy)) ∨
    ∃ e page', page.placeCopy anchor copy item value = (.error e, page') ∧
      page'.config = page.config ∧ Drafted t copy page'.host ∧
      (P → Contained t (page.attributeName .bind) copy page'.host) := by
  have hs := h.sound
  let b' : Binding := { b with directive := .repetition clause template placeholder rendered }
  let d : Binding := { b with directive := .repetition clause template placeholder (rendered ++ [copy]) }
  have hb' : b' ∈ front ++ b' :: back := mem_insert.2 (.inl rfl)
  obtain ⟨hconfig, hrendered⟩ :=
    renderCopy_keeps (Drafted.renderStable hs hnew page.config) hdraft item value
  have hrendered' : P → Contained t (page.attributeName .bind) copy
      (page.renderCopy copy item value).2.host := fun hP =>
    (renderCopy_keeps (Contained.renderStable hs hnew page.config) (hcontained hP) item value).2
  rw [placeCopy]
  generalize page.renderCopy copy item value = outcome at hconfig hrendered hrendered'
  obtain ⟨_ | _, page₁⟩ := outcome
  · exact .inr ⟨_, _, rfl, hconfig, hrendered, hrendered'⟩
  dsimp only at hconfig hrendered hrendered' ⊢
  have hs₁ := hrendered.beside.sound
  have hkept := h.restorable.keepsPlaces ht hrendered.beside.keepsPlaces
  have hrespects := h.respects_beside ht hrendered.beside
  cases hp : page₁.host.parent? anchor with
  | none =>
    refine .inr ⟨.detached (page₁.host.describe anchor), page₁, ?_, hconfig, hrendered, hrendered'⟩
    rw [HostTree.insertAfter, hp]
    rfl
  | some p =>
    have hmade : Made t₀ shows page₁.host copy :=
      ⟨hrendered.live, fun hx => hnew (h.restorable.stays copy hx), hrendered.kind⟩
    obtain ⟨t', hinsert, hplaced, hswap⟩ := hkept.placed ht (d := d) rfl rfl rfl hanchor hp hmade
      hrendered.loose fun c hc ho => hnew (h.restorable.made c hc copy ho).live
    have hanchored : anchor ∈ b'.own :=
      List.mem_cons_of_mem _ (List.mem_of_getLast? hanchor)
    have hlive : t.Live anchor := (h.restorable.made b' hb' anchor hanchored).live
    have hheld₁ : Held t₀ shows (front ++ b' :: back) page₁.host := h.exchange hkept rfl rfl
    have hrespects' : Respects (front ++ b' :: back) page₁.host t' := by
      have hkind := (hkept.made b' hb' anchor hanchored).kind
      refine hheld₁.respects_swapped ht hswap (.inr ⟨b', hb', hanchored⟩) hkind fun c hc => ?_
      rcases List.mem_cons.1 hc with rfl | hc
      · exact hkind
      · exact List.mem_singleton.1 hc ▸ hrendered.kind
    refine .inl ⟨{ page₁ with host := t' }, ?_, hconfig, h.exchange hplaced rfl rfl,
      hrespects.trans hrespects', fun hP => ?_⟩
    · rw [hinsert]
      rfl
    · have hcopied := hrendered' hP
      have hfixed : page₁.host.Fixed t' copy := by
        refine .swapped hswap fun y hy hmem => hnew ?_
        exact (hrendered.guarded hs).of_below hs₁.tree.linked (hy.tail hmem) hlive
      have hcount : t'.liveCount = page₁.host.liveCount := hs₁.liveCount_congr hswap.sound fun y =>
        ⟨fun hy => hy.of_content (hswap.content y).symm, fun hy => hy.of_content (hswap.content y)⟩
      dsimp only
      rw [hcount, liveCount_copy hs hcopied hnew, hfixed.weight_eq hs₁ hswap.sound hrendered.live]

/-- A copy that is given up leaves nothing. -/
theorem liveCount_discard (ht : t.Sound) (h : Contained t name copy page.host)
    (hnew : ¬ t.Live copy) : (page.discard copy).host.liveCount = t.liveCount := by
  have hs := h.drafted.beside.sound
  have hroot : copy ≠ HostTree.root := by
    rintro rfl
    exact hnew ht.tree.linked.rooted
  obtain ⟨t', hdestroy, -⟩ := HostTree.destroy_removed hs h.drafted.live hroot
  have hcount := hs.liveCount_destroy h.drafted.live hroot hdestroy
  rw [liveCount_copy ht h hnew] at hcount
  have hdiscard : (page.discard copy).host = t' := by
    rw [discard, hdestroy]
    rfl
  rw [hdiscard]
  omega

/-- A copy for each of some values. -/
theorem renderItems_books (ht : t₀.Tree) (item : String) (earlier : Option HostError)
    (values : List Value) :
    ∀ {anchor : NodeId} {rendered : List NodeId} {page : Page},
      Held t₀ shows
        (front ++ { b with directive := .repetition clause template placeholder rendered } :: back)
        page.host →
      (placeholder :: rendered).getLast? = some anchor →
      let r := renderItems item template earlier values anchor rendered page
      Respects
          (front ++ { b with directive := .repetition clause template placeholder rendered } :: back)
          page.host r.2.2.host ∧
        r.2.2.config = page.config ∧
        (page.host.Bare (page.attributeName .bind) template →
          r.2.2.host.liveCount + (rendered.map page.host.weight).sum =
            page.host.liveCount + (r.2.1.map r.2.2.host.weight).sum) := by
  induction values with
  | nil => exact fun _ _ => ⟨.refl _ _, rfl, fun _ => rfl⟩
  | cons value values ih =>
    intro anchor rendered page h hanchor
    have hs := h.sound
    let b' : Binding := { b with directive := .repetition clause template placeholder rendered }
    let d : NodeId → Binding := fun copy =>
      { b with directive := .repetition clause template placeholder (rendered ++ [copy]) }
    have hb' : b' ∈ front ++ b' :: back := mem_insert.2 (.inl rfl)
    have htemplate : template ∈ b'.own := List.mem_cons_self
    obtain ⟨hlive, -, hkind⟩ := h.restorable.made b' hb' template htemplate
    obtain ⟨copy, t₁, hclone, hcloned⟩ := HostTree.cloneNode_cloned hs hlive
    rw [← hcloned.figure] at hkind
    have hdraft : Drafted page.host copy t₁ := ⟨⟨hcloned.beside, hcloned.live, hcloned.loose⟩, hkind⟩
    let page₁ : Page := { page with host := t₁ }
    have hdraft₁ : Drafted page.host copy page₁.host := hdraft
    have hcontained : page.host.Bare (page.attributeName .bind) template →
        Contained page.host (page₁.attributeName .bind) copy page₁.host := fun hbare =>
      ⟨hdraft, hcloned.whole, hcloned.bare _ hbare⟩
    dsimp only
    rw [renderItems, editPartly, hclone]
    dsimp only
    obtain ⟨page₂, hplace, hconfig, h₂, hrespects, hcount⟩ |
        ⟨e, page₂, hplace, hconfig₂, hdraft₂, hcontained₂⟩ :=
      placeCopy_books ht h hanchor hdraft₁ hcontained hcloned.new item value
    · rw [hplace]
      dsimp only
      have hlast : (placeholder :: (rendered ++ [copy])).getLast? = some copy := by
        simp [List.getLast?_cons]
      obtain ⟨hrespects', hconfig', hcount'⟩ := ih h₂ hlast
      have hsub : b'.own ⊆ (d copy).own := by
        intro o ho
        simp only [b', d, Binding.own, List.mem_cons, List.mem_append] at ho ⊢
        tauto
      refine ⟨hrespects.trans (hrespects'.mono rfl rfl hsub), hconfig'.trans hconfig, fun hbare => ?_⟩
      have hbare₂ : page₂.host.Bare (page₂.attributeName .bind) template := by
        rw [attributeName, hconfig]
        exact hbare.fixed (hrespects.own b' hb' template htemplate)
      have hweights : (rendered.map page₂.host.weight).sum = (rendered.map page.host.weight).sum :=
        hrespects.copyWeight hs h₂.sound hb' (h.live_own hb')
      have hfirst := hcount hbare
      have hrest := hcount' hbare₂
      rw [List.map_append, List.sum_append, hweights, List.map_singleton, List.sum_singleton] at hrest
      omega
    · rw [hplace]
      dsimp only
      have hgiven := discard_beside hs hdraft₂.toSketched hcloned.new
      refine ⟨h.respects_beside ht hgiven, ?_, fun hbare => ?_⟩
      · exact (edit_config _ _).trans hconfig₂
      · have hweights : (rendered.map (page₂.discard copy).host.weight).sum =
            (rendered.map page.host.weight).sum :=
          (h.respects_beside ht hgiven).copyWeight hs hgiven.sound hb' (h.live_own hb')
        rw [liveCount_discard hs (hcontained₂ hbare) hcloned.new]
        omega

theorem listAt_config (page : Page) (path : Path) : (page.listAt path).2.config = page.config := by
  rw [listAt]
  cases resolvePath page.state.heap page.state.scope path with
  | error e => rfl
  | ok value =>
    cases value with
    | array id =>
      dsimp only
      split <;> rfl
    | _ => rfl

/-- What an update of a binding does to the books: templates stay, and where the binding has a
    template in which elements that show a text contain nothing but texts, the books are balanced. -/
structure Books (bs bs' : List Binding) (b : Binding) (page page' : Page) : Prop where
  config : page'.config = page.config
  templates : ∀ c ∈ bs, ∀ o, c.template? = some o → page.host.Fixed page'.host o
  balanced : (∀ o, b.template? = some o → page.host.Bare (page.attributeName .bind) o) →
    Balanced bs bs' page.host page'.host

/-- A step that leaves all subtrees and the number of nodes. -/
theorem Books.of_respects (h : Held t₀ shows (front ++ b :: back) page.host) {page' : Page}
    (hrespects : Respects (front ++ b :: back) page.host page'.host) (hs' : page'.host.Sound)
    (hcount : page'.host.liveCount = page.host.liveCount) (hconfig : page'.config = page.config)
    (hnode : d.node = b.node) (hkind : d.kind = b.kind) (hrendered : d.rendered = b.rendered) :
    Books (front ++ b :: back) (front ++ d :: back) b page page' where
  config := hconfig
  templates c hc o ho := hrespects.own c hc o (Binding.mem_own_of_template? ho)
  balanced _ := by
    have hb : b ∈ front ++ b :: back := mem_insert.2 (.inl rfl)
    have hself := hrespects.copyWeight h.sound hs' hb (h.live_own hb)
    refine .exchange hnode hkind (fun c hc => ?_) (fun x hx => hrespects.textWeight hx) ?_
    · have hc' : c ∈ front ++ b :: back := mem_insert.2 (.inr hc)
      exact hrespects.copyWeight h.sound hs' hc' (h.live_own hc')
    · rw [hcount, ← hself, HostTree.copyWeight, HostTree.copyWeight, hrendered]

/-- A list is rendered again. -/
theorem updateRepetition_books (ht : t₀.Tree)
    (h : Held t₀ shows
      (front ++ { b with directive := .repetition clause template placeholder rendered } :: back)
      page.host) :
    let r := page.updateRepetition clause template placeholder rendered
    Books (front ++ { b with directive := .repetition clause template placeholder rendered } :: back)
      (front ++ { b with directive := .repetition clause template placeholder r.2.1 } :: back)
      { b with directive := .repetition clause template placeholder rendered } page r.2.2 := by
  let b' : Binding := { b with directive := .repetition clause template placeholder rendered }
  let d : Binding := { b with directive := .repetition clause template placeholder [] }
  have hd : d ∈ front ++ d :: back := mem_insert.2 (.inl rfl)
  have hs := h.sound
  have hhost := page.listAt_host clause.list
  have hconfig := page.listAt_config clause.list
  dsimp only
  rw [updateRepetition]
  generalize page.listAt clause.list = list at hhost hconfig
  obtain ⟨values | values, page₁⟩ := list
  · dsimp only at hhost hconfig ⊢
    exact .of_respects h (hhost ▸ .refl _ _) (hhost ▸ hs) (by rw [hhost]) hconfig rfl rfl rfl
  · dsimp only at hhost hconfig ⊢
    rw [hhost]
    obtain ⟨h₁, hrespects₁, hcount₁⟩ := removeAll_books ht h
    generalize despiteFailures HostTree.destroy rendered page.host = removed at h₁ hrespects₁ hcount₁
    obtain ⟨earlier, t₁⟩ := removed
    dsimp only at h₁ hrespects₁ hcount₁ ⊢
    let page₂ : Page := { page₁ with host := t₁ }
    have h₂ : Held t₀ shows (front ++ d :: back) page₂.host := h₁
    have hlast : [placeholder].getLast? = some placeholder := rfl
    obtain ⟨hrespects₂, hconfig₂, hcount₂⟩ :=
      renderItems_books ht clause.item earlier values h₂ hlast
    have hs₃ := (renderItems_restorable ht clause.item earlier values h₂.restorable hlast).1.sound
    generalize renderItems clause.item template earlier values placeholder [] page₂ = outcome
      at hrespects₂ hconfig₂ hcount₂ hs₃
    obtain ⟨result, copies, page₃⟩ := outcome
    dsimp only at hrespects₂ hconfig₂ hcount₂ hs₃ ⊢
    have hrespects : Respects (front ++ d :: back) page.host page₃.host :=
      hrespects₁.trans hrespects₂
    constructor
    case config => exact hconfig₂.trans hconfig
    case templates =>
      intro c hc o ho
      rcases mem_insert.1 hc with rfl | hc
      · exact hrespects.own d hd o (Binding.mem_own_of_template? ho)
      · exact hrespects.own c (mem_insert.2 (.inr hc)) o (Binding.mem_own_of_template? ho)
    case balanced =>
      intro hbare
      have hbare₂ : page₂.host.Bare (page₂.attributeName .bind) template := by
        rw [attributeName, show page₂.config = page.config from hconfig]
        exact (hbare template rfl).fixed (hrespects₁.own d hd template List.mem_cons_self)
      have hcopies : page₃.host.liveCount + 0 = t₁.liveCount + (copies.map page₃.host.weight).sum :=
        hcount₂ hbare₂
      refine .exchange rfl rfl (fun c hc => ?_) (fun x hx => ?_) ?_
      · exact hrespects.copyWeight hs hs₃ (mem_insert.2 (.inr hc))
          (h.live_own (mem_insert.2 (.inr hc)))
      · rw [shownNodes_exchange (d := b') (b := d) rfl rfl] at hx
        exact hrespects.textWeight hx
      · rw [HostTree.copyWeight, HostTree.copyWeight, Binding.rendered, Binding.rendered]
        dsimp only
        omega

/-! ## Single places -/

variable {expression : CompiledExpression}

/-- Where one number of a list is another one, the sum is. -/
theorem sum_map_revise {f g : NodeId → Nat} {xs : List NodeId} (hnodup : xs.Nodup) (hx : x ∈ xs)
    (hsame : ∀ y ∈ xs, y ≠ x → g y = f y) : (xs.map g).sum + f x = (xs.map f).sum + g x := by
  obtain ⟨before, after, rfl⟩ := List.append_of_mem hx
  have hfront : before.map g = before.map f := by
    refine List.map_congr_left fun y hy => hsame y (by simp [hy]) ?_
    rintro rfl
    exact (List.nodup_append.1 hnodup).2.2 y hy y List.mem_cons_self rfl
  have hback : after.map g = after.map f := by
    refine List.map_congr_left fun y hy => hsame y (by simp [hy]) ?_
    rintro rfl
    exact (List.nodup_cons.1 (List.nodup_append.1 hnodup).2.1).1 hy
  simp only [List.map_append, List.map_cons, List.sum_append, List.sum_cons, hfront, hback]
  omega

/-- An element shows another text: the books are balanced by its texts. -/
theorem books_of_setText (ht : t₀.Tree) (h : Held t₀ shows (front ++ b :: back) page.host)
    (hkind : b.kind = .bind) {page' : Page} {text : String}
    (hset : page.host.setText b.node text = .ok page'.host) (hconfig : page'.config = page.config)
    (hdnode : d.node = b.node) (hdkind : d.kind = b.kind) :
    Books (front ++ b :: back) (front ++ d :: back) b page page' := by
  have hs := h.sound
  have hs' := hs.setText hset
  have hb : b ∈ front ++ b :: back := mem_insert.2 (.inl rfl)
  obtain ⟨hfixed, htexts⟩ := h.refilled ht hb hkind hset
  refine ⟨hconfig, fun c hc o ho => hfixed c hc o (Binding.mem_own_of_template? ho), fun _ => ?_⟩
  have hcopies : ∀ c ∈ front ++ back, page'.host.copyWeight c = page.host.copyWeight c := by
    intro c hc
    have hc' : c ∈ front ++ b :: back := mem_insert.2 (.inr hc)
    refine congrArg List.sum (List.map_congr_left fun o ho => ?_)
    have hown := Binding.mem_own_of_mem_rendered ho
    exact (hfixed c hc' o hown).weight_eq hs hs' (h.live_own hc' o hown)
  have hnone : ∀ (t : HostTree Reaction) {c : Binding}, c.kind = .bind → t.copyWeight c = 0 := by
    intro t c hc
    rw [HostTree.copyWeight, Binding.rendered_of_kind hc]
    rfl
  have hnodup : (shownNodes (front ++ b :: back)).Nodup := List.nodup_dedup _
  have hsums := sum_map_revise hnodup (mem_shownNodes.2 ⟨b, hb, hkind, rfl⟩)
    (f := page.host.textWeight) (g := page'.host.textWeight) fun y hy hne => by
      obtain ⟨c, hc, hbind, rfl⟩ := mem_shownNodes.1 hy
      exact htexts c hc hbind hne
  have hcount := (HostTree.setText_refills hs hset).count
  rw [Balanced, turnover_insert, turnover_insert, shownNodes_exchange hdnode hdkind,
    List.map_congr_left hcopies, hnone _ hkind, hnone _ (hdkind.trans hkind)]
  omega

theorem updateText_books (ht : t₀.Tree) {shown : Option String}
    (h : Held t₀ shows (front ++ { b with directive := .text expression shown } :: back) page.host) :
    let r := page.updateText b.node expression shown
    Books (front ++ { b with directive := .text expression shown } :: back)
      (front ++ { b with directive := .text expression r.2.1 } :: back)
      { b with directive := .text expression shown } page r.2.2 := by
  obtain ⟨hconfig, hsame | ⟨text, hset⟩⟩ := page.updateText_cases b.node expression shown
  · exact .of_respects h (hsame ▸ .refl _ _) (hsame ▸ h.sound) (by rw [hsame]) hconfig rfl rfl rfl
  · exact books_of_setText ht h rfl hset hconfig rfl rfl

/-- The document is as it was, or the element looks different. -/
theorem books_of_repainted (ht : t₀.Tree) (h : Held t₀ shows (front ++ b :: back) page.host)
    {page' : Page} (hcases : page'.config = page.config ∧
      (page'.host = page.host ∨ page.host.Repainted page'.host b.node)) :
    Books (front ++ b :: back) (front ++ b :: back) b page page' := by
  have hs := h.sound
  obtain ⟨hconfig, hsame | hrepainted⟩ := hcases
  · exact .of_respects h (hsame ▸ .refl _ _) (hsame ▸ hs) (by rw [hsame]) hconfig rfl rfl rfl
  · have hsafe := h.restorable.safe b (mem_insert.2 (.inl rfl))
    have hsound := (hrepainted.keepsPlaces hs).sound
    refine .of_respects h (h.respects_repainted ht hsafe hrepainted) hsound ?_ hconfig rfl rfl rfl
    refine hs.liveCount_congr hsound fun y => ?_
    obtain ⟨change, hmodify, -⟩ := hrepainted.change
    rw [hmodify, HostTree.live_modify_iff]

/-- An element goes out of its slot or comes back. -/
theorem books_of_replace (ht : t₀.Tree) (h : Held t₀ shows (front ++ b :: back) page.host)
    {old new : NodeId} (hold : old = b.node ∧ new ∈ b.own ∨ old ∈ b.own ∧ new = b.node)
    (hfree : page.host.parent? new = none) {page₁ : Page} (hhost : page₁.host = page.host)
    (hconfig : page₁.config = page.config) (hdnode : d.node = b.node) (hdkind : d.kind = b.kind)
    (hrendered : d.rendered = b.rendered) :
    Books (front ++ b :: back) (front ++ d :: back) b page
      (page₁.editPartly (page₁.host.replace old new)).2 := by
  have hs := h.sound
  have hr := h.restorable
  have hb : b ∈ front ++ b :: back := mem_insert.2 (.inl rfl)
  have hsafe := hr.safe b hb
  have hlive : ∀ x, x = b.node ∨ x ∈ b.own → page.host.Live x ∧ (page.host.figure x).kind ≠ .text := by
    rintro x (rfl | hx)
    · exact ⟨hr.stays _ hsafe, h.kind_node hb⟩
    · exact ⟨(hr.made b hb x hx).live, (hr.made b hb x hx).kind⟩
  have hknown : (old = b.node ∨ old ∈ b.own) ∧ (new = b.node ∨ new ∈ b.own) := by
    rcases hold with ⟨hold, hnew⟩ | ⟨hold, hnew⟩
    · exact ⟨.inl hold, .inr hnew⟩
    · exact ⟨.inr hold, .inl hnew⟩
  obtain ⟨hliveOld, hkindOld⟩ := hlive old hknown.1
  obtain ⟨hliveNew, hkindNew⟩ := hlive new hknown.2
  rw [editPartly, hhost]
  cases hp : page.host.parent? old with
  | none =>
    rw [HostTree.replace_loose hliveOld hp]
    exact .of_respects h (.refl _ _) hs rfl hconfig hdnode hdkind hrendered
  | some p =>
    have hplace : new ≠ HostTree.root ∧ ¬ page.host.Below new p := by
      rcases hold with ⟨rfl, hnew⟩ | ⟨hown, rfl⟩
      · have hparent := hr.parent_of_safe hsafe hp
        exact ⟨hr.not_safe_own hb hnew ht.root_safe,
          (hr.not_below_own ht hb hnew).1 p (hsafe.parent ht hparent)⟩
      · have hparent := hr.parent_of_own hb hown hp
        refine ⟨HostTree.Safe.ne_root ht hparent, fun hbelow => ?_⟩
        exact ht.acyclic.not_below (ht.listed hparent)
          (hr.safe_of_below ht (hsafe.parent ht hparent) hbelow).2
    obtain ⟨t', hreplace, hswap, -⟩ :=
      HostTree.replace_swaps hs hp hliveNew hfree hplace.1 hplace.2
    rw [hreplace]
    have holdKnown : t₀.Safe shows old ∨ ∃ c ∈ front ++ b :: back, old ∈ c.own := by
      rcases hknown.1 with rfl | hown
      · exact .inl hsafe
      · exact .inr ⟨b, hb, hown⟩
    have hrespects := h.respects_swapped ht hswap holdKnown hkindOld fun c hc =>
      List.mem_singleton.1 hc ▸ hkindNew
    refine .of_respects h hrespects hswap.sound ?_ hconfig hdnode hdkind hrendered
    exact hs.liveCount_congr hswap.sound fun y =>
      ⟨fun hy => hy.of_content (hswap.content y).symm, fun hy => hy.of_content (hswap.content y)⟩

theorem updatePresence_books (ht : t₀.Tree) {present : Bool}
    (h : Held t₀ shows
      (front ++ { b with directive := .presence expression placeholder present } :: back)
      page.host) :
    let r := page.updatePresence b.node expression placeholder present
    Books (front ++ { b with directive := .presence expression placeholder present } :: back)
      (front ++ { b with directive := .presence expression placeholder r.2.1 } :: back)
      { b with directive := .presence expression placeholder present } page r.2.2 := by
  let b' : Binding := { b with directive := .presence expression placeholder present }
  have hb' : b' ∈ front ++ b' :: back := mem_insert.2 (.inl rfl)
  have hs := h.sound
  have haside : page.host.parent? (if present then placeholder else b.node) = none :=
    h.restorable.aside b' hb' _ (List.mem_singleton_self _)
  have hown : placeholder ∈ b'.own := List.mem_singleton_self _
  have hhost := page.evaluate_host expression page.state.scope
  have hconfig := page.evaluate_config expression page.state.scope
  dsimp only
  rw [updatePresence]
  generalize page.evaluate expression page.state.scope = evaluated at hhost hconfig
  obtain ⟨value, page₁⟩ := evaluated
  dsimp only at hhost hconfig ⊢
  by_cases hsame : value.isTruthy = present
  · rw [if_pos hsame]
    exact .of_respects h (hhost ▸ .refl _ _) (hhost ▸ hs) (by rw [hhost]) hconfig rfl rfl rfl
  rw [if_neg hsame]
  cases present with
  | true =>
    rw [Bool.not_eq_true] at hsame
    rw [hsame]
    have hbooks := fun gone => books_of_replace ht h (.inl ⟨rfl, hown⟩) haside hhost hconfig
      (d := { b with directive := .presence expression placeholder gone }) rfl rfl rfl
    simp only [Bool.false_eq_true, if_false]
    generalize page₁.editPartly (page₁.host.replace b.node placeholder) = edited at hbooks
    obtain ⟨_ | _, page₂⟩ := edited <;> exact hbooks _
  | false =>
    rw [Bool.not_eq_false] at hsame
    rw [hsame]
    have hbooks := fun back' => books_of_replace ht h (.inr ⟨hown, rfl⟩) haside hhost hconfig
      (d := { b with directive := .presence expression placeholder back' }) rfl rfl rfl
    simp only [if_true]
    generalize page₁.editPartly (page₁.host.replace placeholder b.node) = edited at hbooks
    obtain ⟨_ | _, page₂⟩ := edited <;> exact hbooks _

/-- An update of a binding, also one that fails on the way, keeps the books. -/
theorem update_books (ht : t₀.Tree) (h : Held t₀ shows (front ++ b :: back) page.host) :
    Books (front ++ b :: back) (front ++ (page.update b).2.1 :: back) b page (page.update b).2.2 := by
  obtain ⟨id, node, source, directive, reads⟩ := b
  cases directive with
  | text expression shown => exact updateText_books (b := ⟨id, node, source, _, reads⟩) ht h
  | visibility expression =>
    exact books_of_repainted ht h (page.updateVisibility_cases node expression)
  | presence expression placeholder present =>
    exact updatePresence_books (b := ⟨id, node, source, _, reads⟩) ht h
  | repetition clause template placeholder rendered =>
    exact updateRepetition_books (b := ⟨id, node, source, _, reads⟩) ht h
  | model expression listener =>
    exact books_of_repainted ht h (page.updateModel_cases node expression)
  | events listeners => exact .of_respects h (.refl _ _) h.sound rfl rfl rfl rfl rfl

end Page

end ReactiveTemplate
