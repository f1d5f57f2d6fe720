import ReactiveTemplate.Proofs.Engine.Enrolment
import ReactiveTemplate.Proofs.Engine.Refills

/-!
# Updates that can be undone

Whatever an update of a binding does, also one that fails half way, the document can be restored
afterwards, and the listeners of safe nodes stay.

* `RenderStable`: what rendering a copy keeps.
* `Sketched`: a copy that is not placed yet, beside the nodes of a document.
* `Page.renderItems_restorable`: a copy for each item.
* `Page.updateText_cases`, `Page.updateVisibility_cases`, `Page.updateModel_cases`: what the update of a
  single place does to the document.
* `Page.update_restorable`: an update of any binding.
-/

namespace ReactiveTemplate

variable {t₀ t t' : HostTree Reaction} {shows P : NodeId → Prop} {front back : List Binding}
  {b : Binding} {x p o anchor copy node template placeholder : NodeId}
  {rendered : List NodeId} {clause : ForClause}

/-! ## Rendering a copy -/

/-- A property of documents that rendering a copy keeps: it sets texts and styles of nodes within
    reach, and all nodes of the copy are within reach. -/
structure RenderStable (config : Config) (reach : NodeId → Prop) (copy : NodeId)
    (Q : HostTree Reaction → Prop) : Prop where
  inside : ∀ t, Q t → ∀ x ∈ t.preorder copy, reach x
  text : ∀ t id text t', Q t → reach id → (t.attribute? id (config.attributeName .bind)).isSome →
    t.setText id text = .ok t' → Q t'
  style : ∀ t id value t', Q t → reach id → t.setStyle id "display" value = .ok t' → Q t'

namespace Page

variable {page : Page} {config : Config} {reach : NodeId → Prop} {Q : HostTree Reaction → Prop}

/-- An edit keeps what every successful outcome of it keeps. -/
theorem edit_keeps {outcome : Except HostError (HostTree Reaction)} (h : Q page.host)
    (hedit : ∀ t', outcome = .ok t' → Q t') : Q (page.edit outcome).2.host := by
  cases outcome with
  | error e => exact h
  | ok t' => exact hedit t' rfl

theorem edit_config (page : Page) (outcome : Except HostError (HostTree Reaction)) :
    (page.edit outcome).2.config = page.config := by
  cases outcome <;> rfl

theorem evaluate_config (page : Page) (expression : CompiledExpression) (scope : Scope) :
    (page.evaluate expression scope).2.config = page.config := by
  rw [evaluate]
  cases expression.eval? page.state.heap scope <;> rfl

theorem renderElement_keeps (hQ : RenderStable config reach copy Q) {kind : DirectiveKind}
    {scope : Scope} {element : NodeId} (hreach : reach element)
    (h : page.config = config ∧ Q page.host) :
    (renderElement kind scope page element).2.config = config ∧
      Q (renderElement kind scope page element).2.host := by
  rw [renderElement]
  cases hattribute : page.host.attribute? element (page.attributeName kind) with
  | none => exact h
  | some source =>
    have hconfig := evaluate_config (page.compile source .loop).2 (page.compile source .loop).1 scope
    have hhost := evaluate_host (page.compile source .loop).2 (page.compile source .loop).1 scope
    dsimp only
    generalize (page.compile source .loop).2.evaluate (page.compile source .loop).1 scope = evaluated
      at hconfig hhost ⊢
    obtain ⟨value, page'⟩ := evaluated
    have hconfig' : page'.config = config := hconfig.trans h.1
    have hhost' : page'.host = page.host := hhost
    have hstyle : (page'.setVisible element value.isTruthy).2.config = config ∧
        Q (page'.setVisible element value.isTruthy).2.host := by
      refine ⟨(edit_config _ _).trans hconfig', edit_keeps (hhost' ▸ h.2) fun t' hset => ?_⟩
      exact hQ.style _ _ _ _ (hhost' ▸ h.2) hreach hset
    cases kind with
    | bind =>
      refine ⟨(edit_config _ _).trans hconfig', edit_keeps (hhost' ▸ h.2) fun t' hset => ?_⟩
      refine hQ.text _ _ _ _ (hhost' ▸ h.2) hreach ?_ hset
      rw [hhost', ← h.1]
      exact Option.isSome_iff_exists.2 ⟨source, hattribute⟩
    | visibility | presence | repetition | model | events => exact hstyle

/-- What rendering keeps is kept by rendering a copy, whether it succeeds or fails. -/
theorem renderCopy_keeps (hQ : RenderStable page.config reach copy Q) (h : Q page.host)
    (item : String) (value : Value) :
    (page.renderCopy copy item value).2.config = page.config ∧
      Q (page.renderCopy copy item value).2.host := by
  let R : Page → Prop := fun page' => page'.config = page.config ∧ Q page'.host
  refine untilFailure_keeps (Q := R) (fun kind _ page' h' => ?_) page ⟨rfl, h⟩
  rw [renderKind]
  cases hwith : page'.host.withAttribute copy (page'.attributeName kind) with
  | error e => exact h'
  | ok elements =>
    refine untilFailure_keeps (Q := R) (fun element helement page'' h'' => ?_) page' h'
    refine renderElement_keeps hQ (hQ.inside _ h'.2 element ?_) h''
    rw [HostTree.withAttribute] at hwith
    cases hget : page'.host.get copy with
    | error e =>
      rw [hget] at hwith
      cases hwith
    | ok n =>
      rw [hget] at hwith
      rw [← Except.ok.inj hwith] at helement
      exact (List.mem_filter.1 helement).1

end Page

/-! ## Copies on their own -/

/-- A node without a parent is below nothing else. -/
theorem HostTree.Linked.not_below_loose {α : Type} {t : HostTree α} (hl : t.Linked)
    (hx : t.parent? x = none) (hne : p ≠ x) : ¬ t.Below p x := by
  intro hbelow
  obtain ⟨q, hq, -⟩ := hl.below_parent hbelow hne.symm
  rw [hx] at hq
  cases hq

/-- A document with a copy that is not among the others yet: all nodes that were there before are as
    they were. -/
structure Sketched (t : HostTree Reaction) (copy : NodeId) (t' : HostTree Reaction) : Prop where
  beside : HostTree.Beside t.Live t t'
  live : t'.Live copy
  loose : t'.parent? copy = none

namespace Sketched

theorem guarded (ht : t.Sound) (h : Sketched t copy t') : HostTree.Guarded t.Live t' :=
  (HostTree.guarded_live ht).beside h.beside

/-- A change of a node that was not there before. -/
theorem step (h : Sketched t copy t') (hbeside : HostTree.Beside t.Live t' t'')
    (hkeeps : HostTree.Keeps t' t'' copy) : Sketched t copy t'' :=
  ⟨h.beside.trans hbeside, hkeeps.live,
    hkeeps.parent.elim id fun hsame => hsame.trans h.loose⟩

/-- No text of a node goes with the copy. -/
theorem keeps_setText (h : Sketched t copy t') {id : NodeId} {text : String}
    (hset : t'.setText id text = .ok t'') : HostTree.Keeps t' t'' copy := by
  have hl := h.beside.sound.tree.linked
  refine (HostTree.setText_keeps h.beside.sound hset h.live fun c hc n hn hkind hbelow => ?_).1
  by_cases heq : c = copy
  · have hparent := hl.child hc
    rw [heq, h.loose] at hparent
    cases hparent
  · exact hl.not_below_loose h.loose heq hbelow

/-- Rendering a new copy touches nothing that was there before. -/
theorem renderStable (ht : t.Sound) (hnew : ¬ t.Live copy) (config : Config) :
    RenderStable config (fun x => ¬ t.Live x) copy (Sketched t copy) where
  inside t' h x hx hlive := by
    have hbelow := (h.beside.sound.mem_preorder h.live).1 hx
    exact hnew ((h.guarded ht).of_below h.beside.sound.tree.linked hbelow hlive)
  text t' id text t'' h hid _ hset :=
    h.step (.setText h.beside.sound (h.guarded ht) hid hset) (h.keeps_setText hset)
  style t' id value t'' h hid hset :=
    h.step (.update h.beside.sound hid hset (fun _ => rfl) fun _ => rfl)
      (.update h.live hset (fun _ => rfl) (fun _ => rfl) fun _ => rfl)

end Sketched

/-- A document with the copy of an element. -/
structure Drafted (t : HostTree Reaction) (copy : NodeId) (t' : HostTree Reaction) : Prop extends
    Sketched t copy t' where
  kind : (t'.figure copy).kind ≠ .text

/-- Beside all nodes nothing is heard. -/
theorem Restorable.heard_beside {bs : List Binding} (h : Restorable t₀ shows bs t)
    (hbeside : HostTree.Beside t.Live t t') : t₀.KeepsHeard shows t t' := fun x hx =>
  HostTree.listenersOf_eq_of_content_eq
    (by rw [HostTree.content, HostTree.content, hbeside.same x (h.stays x hx)])

namespace Drafted

/-- A change that keeps the copy an element. -/
theorem step (h : Drafted t copy t') (hsketched : Sketched t copy t'')
    (hkeeps : HostTree.Keeps t' t'' copy) : Drafted t copy t'' :=
  ⟨hsketched, by rw [hkeeps.kind]; exact h.kind⟩

/-- Rendering a new copy leaves it an element. -/
theorem renderStable (ht : t.Sound) (hnew : ¬ t.Live copy) (config : Config) :
    RenderStable config (fun x => ¬ t.Live x) copy (Drafted t copy) where
  inside t' h := (Sketched.renderStable ht hnew config).inside t' h.toSketched
  text t' id text t'' h hid hattribute hset :=
    h.step ((Sketched.renderStable ht hnew config).text t' id text t'' h.toSketched hid hattribute
      hset) (h.keeps_setText hset)
  style t' id value t'' h hid hset :=
    h.step ((Sketched.renderStable ht hnew config).style t' id value t'' h.toSketched hid hset)
      (.update h.live hset (fun _ => rfl) (fun _ => rfl) fun _ => rfl)

end Drafted

/-! ## Lists -/

namespace Page

variable {page : Page}

/-- A copy that could not be placed is given up. -/
theorem discard_beside (ht : t.Sound) (h : Sketched t copy page.host) (hnew : ¬ t.Live copy) :
    HostTree.Beside t.Live t (page.discard copy).host := by
  refine edit_keeps h.beside fun t' hdestroy => ?_
  exact h.beside.trans (.destroy h.beside.sound (h.guarded ht) hnew h.loose hdestroy)

/-- A new copy is placed behind the last one, or it stays on its own. -/
theorem placeCopy_restorable (ht : t₀.Tree)
    (h : Restorable t₀ shows (front ++ b :: back) t)
    (hdirective : b.directive = .repetition clause template placeholder rendered)
    (hanchor : (placeholder :: rendered).getLast? = some anchor)
    (hdraft : Drafted t copy page.host) (hnew : ¬ t.Live copy) (item : String) (value : Value) :
    (∃ page', page.placeCopy anchor copy item value = (.ok (), page') ∧
      Restorable t₀ shows (front ++ { b with
        directive := .repetition clause template placeholder (rendered ++ [copy]) } :: back)
        page'.host ∧
      t₀.KeepsHeard shows t page'.host) ∨
    ∃ e page', page.placeCopy anchor copy item value = (.error e, page') ∧
      Drafted t copy page'.host := by
  have hstable := Drafted.renderStable h.sound hnew page.config
  have hrendered := (renderCopy_keeps hstable hdraft item value).2
  rw [placeCopy]
  generalize page.renderCopy copy item value = outcome at hrendered
  obtain ⟨_ | _, page₁⟩ := outcome
  · exact .inr ⟨_, _, rfl, hrendered⟩
  dsimp only at hrendered ⊢
  have hkept := h.keepsPlaces ht hrendered.beside.keepsPlaces
  have hheard := h.heard_beside hrendered.beside
  cases hp : page₁.host.parent? anchor with
  | none =>
    refine .inr ⟨.detached (page₁.host.describe anchor), page₁, ?_, hrendered⟩
    rw [HostTree.insertAfter, hp]
    rfl
  | some p =>
    have hmade : Made t₀ shows page₁.host copy :=
      ⟨hrendered.live, fun hx => hnew (h.stays copy hx), hrendered.kind⟩
    obtain ⟨t', hinsert, hplaced, hswap⟩ := hkept.placed ht (d := { b with
        directive := .repetition clause template placeholder (rendered ++ [copy]) }) hdirective rfl
      rfl hanchor hp hmade hrendered.loose fun c hc ho => hnew (h.made c hc copy ho).live
    refine .inl ⟨{ page₁ with host := t' }, ?_, hplaced, hheard.trans (.of_content hswap.content)⟩
    rw [hinsert]
    rfl

/-- Copies for some values, one behind the other; when one of them fails, those before it are kept. -/
theorem renderItems_restorable (ht : t₀.Tree) (item : String) (earlier : Option HostError)
    (values : List Value) :
    ∀ {anchor : NodeId} {rendered : List NodeId} {page : Page},
      Restorable t₀ shows
        (front ++ { b with directive := .repetition clause template placeholder rendered } :: back)
        page.host →
      (placeholder :: rendered).getLast? = some anchor →
      let r := renderItems item template earlier values anchor rendered page
      Restorable t₀ shows
          (front ++ { b with directive := .repetition clause template placeholder r.2.1 } :: back)
          r.2.2.host ∧
        t₀.KeepsHeard shows page.host r.2.2.host := by
  induction values with
  | nil => exact fun h _ => ⟨h, .refl⟩
  | cons value values ih =>
    intro anchor rendered page h hanchor
    have hs := h.sound
    let b' : Binding := { b with directive := .repetition clause template placeholder rendered }
    have hb' : b' ∈ front ++ b' :: back := mem_insert.2 (.inl rfl)
    obtain ⟨htemplate, -, hkind⟩ := h.made b' hb' template List.mem_cons_self
    obtain ⟨copy, t₁, hclone, hcloned⟩ := HostTree.cloneNode_cloned hs htemplate
    rw [← hcloned.figure] at hkind
    have hdraft : Drafted page.host copy t₁ := ⟨⟨hcloned.beside, hcloned.live, hcloned.loose⟩, hkind⟩
    let page₁ : Page := { page with host := t₁ }
    have hdraft₁ : Drafted page.host copy page₁.host := hdraft
    dsimp only
    rw [renderItems, editPartly, hclone]
    dsimp only
    obtain ⟨page₂, hplace, h₂, hheard⟩ | ⟨e, page₂, hplace, hdraft₂⟩ :=
      placeCopy_restorable ht h (b := b') rfl hanchor hdraft₁ hcloned.new item value
    · rw [hplace]
      have hlast : (placeholder :: (rendered ++ [copy])).getLast? = some copy := by
        simp [List.getLast?_cons]
      obtain ⟨h₃, hheard'⟩ := ih h₂ hlast
      exact ⟨h₃, hheard.trans hheard'⟩
    · rw [hplace]
      have hgiven := discard_beside hs hdraft₂.toSketched hcloned.new
      exact ⟨h.keepsPlaces ht hgiven.keepsPlaces, h.heard_beside hgiven⟩

/-- All copies of a list are destroyed. -/
theorem removeAll_restorable (ht : t₀.Tree) {rendered : List NodeId} :
    ∀ {t : HostTree Reaction},
      Restorable t₀ shows
        (front ++ { b with directive := .repetition clause template placeholder rendered } :: back) t →
      ∃ t', despiteFailures HostTree.destroy rendered t = (none, t') ∧
        Restorable t₀ shows
          (front ++ { b with directive := .repetition clause template placeholder [] } :: back) t' ∧
        t₀.KeepsHeard shows t t' := by
  induction rendered with
  | nil => exact fun {t} h => ⟨t, rfl, h, .refl⟩
  | cons copy rest ih =>
    intro t h
    obtain ⟨t₁, hdestroy, h₁, hheard₁, -⟩ := h.removed ht rfl
      (d := { b with directive := .repetition clause template placeholder rest }) rfl rfl
    obtain ⟨t₂, hrest, h₂, hheard₂⟩ := ih h₁
    refine ⟨t₂, ?_, h₂, hheard₁.trans hheard₂⟩
    rw [despiteFailures, hdestroy]
    exact hrest

theorem listAt_host (page : Page) (path : Path) : (page.listAt path).2.host = page.host := by
  rw [listAt]
  cases resolvePath page.state.heap page.state.scope path with
  | error e => rfl
  | ok value =>
    cases value with
    | array id =>
      dsimp only
      split <;> rfl
    | _ => rfl

theorem updateRepetition_restorable (ht : t₀.Tree)
    (h : Restorable t₀ shows
      (front ++ { b with directive := .repetition clause template placeholder rendered } :: back)
      page.host) :
    let r := page.updateRepetition clause template placeholder rendered
    Restorable t₀ shows
        (front ++ { b with directive := .repetition clause template placeholder r.2.1 } :: back)
        r.2.2.host ∧
      t₀.KeepsHeard shows page.host r.2.2.host := by
  have hhost := page.listAt_host clause.list
  dsimp only
  rw [updateRepetition]
  generalize page.listAt clause.list = list at hhost
  obtain ⟨values | values, page₁⟩ := list
  · dsimp only at hhost ⊢
    rw [hhost]
    exact ⟨h, .refl⟩
  · dsimp only at hhost ⊢
    rw [hhost]
    obtain ⟨t', hremove, h', hheard⟩ := removeAll_restorable ht h
    rw [hremove]
    let page₂ : Page := { page₁ with host := t' }
    have h₂ : Restorable t₀ shows
        (front ++ { b with directive := .repetition clause template placeholder [] } :: back)
        page₂.host := h'
    obtain ⟨h₃, hheard'⟩ := renderItems_restorable ht clause.item none values h₂ rfl
    exact ⟨h₃, hheard.trans hheard'⟩

end Page

/-! ## Single places -/

variable {expression : CompiledExpression}

namespace Restorable

/-- A binding that has made no nodes is exchanged for another such. -/
theorem relabel (h : Restorable t₀ shows (front ++ b :: back) t) (hnode : d.node = b.node)
    (hb : b.own = []) (hd : d.own = []) : Restorable t₀ shows (front ++ d :: back) t := by
  have hdropped := h.drop (.inl (Binding.standIn?_of_own hb))
  refine hdropped.add (hnode ▸ h.safe b (mem_insert.2 (.inl rfl))) ?_
    (Binding.standIn?_of_own hd) (hd ▸ List.nodup_nil) fun _ _ _ _ => hd ▸ List.not_mem_nil
  rw [hd]
  exact nofun

/-- The document is as it was, or an element looks different. -/
theorem repainted {bs : List Binding} (h : Restorable t₀ shows bs t) (ht : t₀.Tree)
    (hcases : t' = t ∨ t.Repainted t' node) :
    Restorable t₀ shows bs t' ∧ t₀.KeepsHeard shows t t' := by
  rcases hcases with rfl | hrepainted
  · exact ⟨h, .refl⟩
  · exact ⟨h.keepsPlaces ht (hrepainted.keepsPlaces h.sound), fun x hx =>
      hrepainted.listenersOf_eq (h.stays x hx)⟩

/-- An element that is in its slot goes out of it, unless it was taken away. -/
theorem leave (h : Restorable t₀ shows
      (front ++ { b with directive := .presence expression placeholder true } :: back) t)
    (ht : t₀.Tree) :
    (∃ t', t.replace b.node placeholder = (.ok (), t') ∧
      Restorable t₀ shows
        (front ++ { b with directive := .presence expression placeholder false } :: back) t' ∧
      t₀.KeepsHeard shows t t') ∨
    ∃ e, t.replace b.node placeholder = (.error e, t) := by
  let b' : Binding := { b with directive := .presence expression placeholder true }
  let d : Binding := { b with directive := .presence expression placeholder false }
  have hb : b' ∈ front ++ b' :: back := mem_insert.2 (.inl rfl)
  have hsafe : t₀.Safe shows b.node := h.safe b' hb
  cases hp : t.parent? b.node with
  | none => exact .inr ⟨_, HostTree.replace_loose (h.stays _ hsafe) hp placeholder⟩
  | some p =>
    have hdropped := h.drop (.inl rfl)
    have hmade : ∀ o ∈ d.own, Made t₀ shows t o ∧ t.parent? o = none := fun o ho =>
      ⟨h.made b' hb o ho, h.aside b' hb o ho⟩
    have haside : ∀ o ∈ d.aside, o = d.node ∨ o ∈ d.own ∧ o ≠ placeholder := fun o ho =>
      .inl (List.mem_singleton.1 ho)
    obtain ⟨t', hreplace, h', hswap⟩ := hdropped.takeOut ht (d := d) hsafe hp rfl hmade
      (List.nodup_singleton _) (nodup_own_insert.1 h.distinct).2.2 haside
    exact .inl ⟨t', hreplace, h', .of_content hswap.content⟩

/-- A node that was taken out of its slot comes back, unless the slot was taken away. -/
theorem comeBack (h : Restorable t₀ shows (front ++ b :: back) t) (ht : t₀.Tree)
    (hout : b.standIn? = some [placeholder]) :
    (∃ t', t.replace placeholder b.node = (.ok (), t') ∧ Restorable t₀ shows (front ++ back) t' ∧
      t.Swapped t' placeholder [b.node] ∧ t'.parent? placeholder = none ∧
      ∀ x, x ≠ b.node → t.parent? x = none → t'.parent? x = none) ∨
    t.parent? placeholder = none ∧ ∃ e, t.replace placeholder b.node = (.error e, t) := by
  have hplaceholder : placeholder ∈ b.own := Binding.mem_own_of_standIn? hout (by simp)
  have hlive := (h.made b (mem_insert.2 (.inl rfl)) placeholder hplaceholder).live
  cases hp : t.parent? placeholder with
  | none => exact .inr ⟨rfl, _, HostTree.replace_loose hlive hp b.node⟩
  | some p => exact .inl (h.putBack ht hout hp)

/-- An element that is out of its slot comes back into it, unless the slot was taken away. -/
theorem enter (h : Restorable t₀ shows
      (front ++ { b with directive := .presence expression placeholder false } :: back) t)
    (ht : t₀.Tree) :
    (∃ t', t.replace placeholder b.node = (.ok (), t') ∧
      Restorable t₀ shows
        (front ++ { b with directive := .presence expression placeholder true } :: back) t' ∧
      t₀.KeepsHeard shows t t') ∨
    ∃ e, t.replace placeholder b.node = (.error e, t) := by
  let b' : Binding := { b with directive := .presence expression placeholder false }
  let d : Binding := { b with directive := .presence expression placeholder true }
  have hb : b' ∈ front ++ b' :: back := mem_insert.2 (.inl rfl)
  obtain ⟨t', hreplace, h', hswap, hfree, -⟩ | ⟨-, hfail⟩ := h.comeBack ht rfl
  · have hcontent := hswap.content
    refine .inl ⟨t', hreplace, ?_, .of_content hcontent⟩
    have hmade : ∀ o ∈ d.own, Made t₀ shows t' o ∧ t'.parent? o = none := by
      intro o ho
      obtain ⟨hlive, hnew, hkind⟩ := h.made b' hb o ho
      refine ⟨⟨hlive.of_content (hcontent o), hnew, ?_⟩, ?_⟩
      · rwa [HostTree.figure_eq_of_content_eq (hcontent o)]
      · rw [List.mem_singleton.1 ho]
        exact hfree
    exact h'.add (d := d) (h.safe b' hb) hmade rfl (List.nodup_singleton _)
      (nodup_own_insert.1 h.distinct).2.2
  · exact .inr hfail

end Restorable

namespace Page

variable {page : Page}

/-- An update of a text leaves the document as it is, or the element gets another text. -/
theorem updateText_cases (page : Page) (node : NodeId) (expression : CompiledExpression)
    (shown : Option String) :
    let r := page.updateText node expression shown
    r.2.2.config = page.config ∧
      (r.2.2.host = page.host ∨ ∃ text, page.host.setText node text = .ok r.2.2.host) := by
  have hhost := page.evaluate_host expression page.state.scope
  have hconfig := page.evaluate_config expression page.state.scope
  dsimp only
  rw [updateText]
  generalize page.evaluate expression page.state.scope = evaluated at hhost hconfig
  obtain ⟨value, page₁⟩ := evaluated
  dsimp only at hhost hconfig ⊢
  rw [← hhost, ← hconfig]
  split
  · exact ⟨rfl, .inl rfl⟩
  · cases hset : page₁.host.setText node (page₁.textOf value) with
    | error e => exact ⟨rfl, .inl rfl⟩
    | ok t' => exact ⟨rfl, .inr ⟨_, hset⟩⟩

theorem edit_repaints {change : Node Reaction → Node Reaction}
    (hkind : ∀ n, (change n).kind = n.kind) (hlisteners : ∀ n, (change n).listeners = n.listeners)
    (hparent : ∀ n, (change n).parent = n.parent)
    (hchildren : ∀ n, (change n).children = n.children) :
    let t' := (page.edit (page.host.update node change)).2.host
    t' = page.host ∨ page.host.Repainted t' node := by
  dsimp only
  cases hupdate : page.host.update node change with
  | error e => exact .inl rfl
  | ok t' => exact .inr (.of_update hupdate hkind hlisteners hparent hchildren)

/-- An update of a visibility, or of an input, changes at most what the element shows. -/
theorem updateVisibility_cases (page : Page) (node : NodeId) (expression : CompiledExpression) :
    let r := page.updateVisibility node expression
    r.2.config = page.config ∧ (r.2.host = page.host ∨ page.host.Repainted r.2.host node) := by
  have hhost := page.evaluate_host expression page.state.scope
  have hconfig := page.evaluate_config expression page.state.scope
  dsimp only
  rw [updateVisibility]
  generalize page.evaluate expression page.state.scope = evaluated at hhost hconfig
  obtain ⟨value, page₁⟩ := evaluated
  dsimp only at hhost hconfig ⊢
  rw [← hhost, ← hconfig]
  refine ⟨edit_config page₁ _, edit_repaints ?_ ?_ ?_ ?_⟩
  all_goals exact fun _ => rfl

theorem updateModel_cases (page : Page) (node : NodeId) (expression : CompiledExpression) :
    let r := page.updateModel node expression
    r.2.config = page.config ∧ (r.2.host = page.host ∨ page.host.Repainted r.2.host node) := by
  have hhost := page.evaluate_host expression page.state.scope
  have hconfig := page.evaluate_config expression page.state.scope
  dsimp only
  rw [updateModel]
  generalize page.evaluate expression page.state.scope = evaluated at hhost hconfig
  obtain ⟨value, page₁⟩ := evaluated
  dsimp only at hhost hconfig ⊢
  rw [← hhost, ← hconfig]
  cases page₁.host.value node with
  | error e => exact ⟨rfl, .inl rfl⟩
  | ok held =>
    dsimp only
    split
    · exact ⟨rfl, .inl rfl⟩
    · refine ⟨edit_config page₁ _, edit_repaints ?_ ?_ ?_ ?_⟩
      all_goals exact fun _ => rfl

theorem updateText_restorable {bs : List Binding} (h : Restorable t₀ shows bs page.host)
    (ht : t₀.Tree) (hshows : shows node) (shown : Option String) :
    Restorable t₀ shows bs (page.updateText node expression shown).2.2.host ∧
      t₀.KeepsHeard shows page.host (page.updateText node expression shown).2.2.host := by
  obtain ⟨-, hsame | ⟨text, hset⟩⟩ := page.updateText_cases node expression shown
  · rw [hsame]
    exact ⟨h, .refl⟩
  · exact h.setText ht hshows hset

/-- An element goes out of its slot or comes back, or all stays as it is. -/
theorem updatePresence_restorable (ht : t₀.Tree) {present : Bool}
    (h : Restorable t₀ shows
      (front ++ { b with directive := .presence expression placeholder present } :: back)
      page.host) :
    let r := page.updatePresence b.node expression placeholder present
    Restorable t₀ shows
        (front ++ { b with directive := .presence expression placeholder r.2.1 } :: back)
        r.2.2.host ∧
      t₀.KeepsHeard shows page.host r.2.2.host := by
  have hhost := page.evaluate_host expression page.state.scope
  dsimp only
  rw [updatePresence]
  generalize page.evaluate expression page.state.scope = evaluated at hhost
  obtain ⟨value, page₁⟩ := evaluated
  dsimp only at hhost ⊢
  rw [← hhost] at h ⊢
  by_cases hsame : value.isTruthy = present
  · rw [if_pos hsame]
    exact ⟨h, .refl⟩
  rw [if_neg hsame]
  cases present with
  | true =>
    rw [Bool.not_eq_true] at hsame
    rw [hsame]
    obtain ⟨t', hreplace, hdone⟩ | ⟨e, hreplace⟩ := h.leave ht
    · simp only [Bool.false_eq_true, if_false, editPartly, hreplace]
      exact hdone
    · simp only [Bool.false_eq_true, if_false, editPartly, hreplace]
      exact ⟨h, .refl⟩
  | false =>
    rw [Bool.not_eq_false] at hsame
    rw [hsame]
    obtain ⟨t', hreplace, hdone⟩ | ⟨e, hreplace⟩ := h.enter ht
    · simp only [if_true, editPartly, hreplace]
      exact hdone
    · simp only [if_true, editPartly, hreplace]
      exact ⟨h, .refl⟩

/-- Whatever the update of a binding does, also one that fails on the way, the document can be
    restored, and the listeners of safe nodes stay. -/
theorem update_restorable (ht : t₀.Tree) (h : Restorable t₀ shows (front ++ b :: back) page.host)
    (hshows : b.kind = .bind → shows b.node) :
    Restorable t₀ shows (front ++ (page.update b).2.1 :: back) (page.update b).2.2.host ∧
      t₀.KeepsHeard shows page.host (page.update b).2.2.host := by
  obtain ⟨id, node, source, directive, reads⟩ := b
  cases directive with
  | text expression shown =>
    obtain ⟨h', hheard⟩ := updateText_restorable h ht (hshows rfl) shown
    exact ⟨h'.relabel rfl rfl rfl, hheard⟩
  | visibility expression => exact h.repainted ht (page.updateVisibility_cases node expression).2
  | presence expression placeholder present =>
    exact updatePresence_restorable (b := ⟨id, node, source, _, reads⟩) ht h
  | repetition clause template placeholder rendered =>
    exact updateRepetition_restorable (b := ⟨id, node, source, _, reads⟩) ht h
  | model expression listener => exact h.repainted ht (page.updateModel_cases node expression).2
  | events listeners => exact ⟨h, .refl⟩

end Page

end ReactiveTemplate
